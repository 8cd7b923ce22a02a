import CondAttrs.Proofs.Lexical.FaultPlace

/-!
# Which lines are interpreter lines

A text that starts with `#!` starts with an interpreter line or with an inner attribute. The rule is
that the first thing behind the two characters that is no trivia decides: a bracket makes an
attribute, and everything else, the end of the text included, makes the whole first line trivia.

The lexer applies this rule to the text behind `#!` as to a text of its own. That is not the same
in two cases. A comment behind `#!` that does not end cannot be skipped, so that the text cannot be
read, though the comment would be part of the line. And a text behind `#!` that starts with `#!`
again may start with an interpreter line too: then its first line is skipped as well, and what
stands behind that line is looked at instead. In all other cases the rule holds.

## Main definitions

* `Trivia.Shows`, `Trivia.LeavesOpen`: what is met behind blank characters and ordinary comments.
* `Trivia.Attributive`, `Trivia.Unjudged`: how several marks are judged.
* `TokenStream.StartsMarked`: the text starts with the marks of an inner attribute.

## Main statements

* `Trivia.shows_iff`, `Trivia.leavesOpen_iff`: the reader of trivia finds what is there.
* `Trivia.readShebang_marks`: the judgement, for any number of marks.
* `Lexing.tree_prepend`: a line in front changes the first trivia only.
* `tokenize_interpreter_line`: the first line of every text.
* `tokenize_line_misjudged`: two lines that the rule makes trivia, and the lexer does not.
-/

namespace CondAttrs

namespace Trivia

/-! ## What comes behind trivia -/

/-- Behind blank characters and ordinary comments the text goes on with the given character, or
ends. -/
def Shows (t : Text) (c : Option Char) : Prop :=
  ∃ trivia rest, t = trivia ++ rest ∧ Plain rest trivia ∧ rest.head? = c ∧
    rest.head?.any Text.isBlank = false ∧ startsComment rest = false

/-- Behind blank characters and ordinary comments an ordinary comment is opened that nothing
closes. -/
def LeavesOpen (t : Text) : Prop :=
  ∃ trivia rest, t = trivia ++ rest ∧ Plain rest trivia ∧ startsComment rest = true ∧
    Fault.commentUnterminated.Begins rest

theorem startsComment_line {t : Text} (h : opensDoc ('/' :: '/' :: t) = false) :
    startsComment ('/' :: '/' :: t) = true :=
  startsComment_eq_true_iff.2 ⟨.inl ⟨t, rfl⟩, h⟩

theorem startsComment_block {t : Text} (h : opensDoc ('/' :: '*' :: t) = false) :
    startsComment ('/' :: '*' :: t) = true :=
  startsComment_eq_true_iff.2 ⟨.inr ⟨t, rfl⟩, h⟩

/-- Neither a blank character nor an ordinary comment stands where reading stops. -/
theorem startsComment_of_stop {t : Text} (h : next t = .stop) :
    t.head?.any Text.isBlank = false ∧ startsComment t = false := by
  unfold next at h
  split at h
  · exact ⟨rfl, rfl⟩
  rename_i c rest
  split at h
  · cases h
  rename_i hblank
  refine ⟨by simpa using hblank, ?_⟩
  rw [isSome_docMarker] at h
  split at h
  · rename_i hdoc
    simp [startsComment, hdoc]
  split at h
  · cases h
  · split at h <;> cases h
  · rename_i hline hblock
    rw [Bool.eq_false_iff]
    intro hcomment
    rcases (startsComment_eq_true_iff.1 hcomment).1 with ⟨r, hr⟩ | ⟨r, hr⟩ <;>
      obtain ⟨rfl, rfl⟩ := List.cons.inj hr
    · exact hline r rfl rfl
    · exact hblock r rfl rfl

theorem startsComment_of_unterminated {t : Text} (h : next t = .unterminated) :
    startsComment t = true := by
  unfold next at h
  split at h
  · cases h
  split at h
  · cases h
  rw [isSome_docMarker] at h
  split at h
  · cases h
  rename_i hdoc
  split at h
  · cases h
  · exact startsComment_block (Bool.eq_false_iff.2 hdoc)
  · cases h

/-- A piece of trivia is a blank character or an ordinary comment that ends. -/
theorem Made.starts {text rest : Text} (h : Made text rest) :
    (text ++ rest).head?.any Text.isBlank = true ∨
      startsComment (text ++ rest) = true ∧ ¬ Fault.commentUnterminated.Begins (text ++ rest) := by
  cases h with
  | blank hc => exact .inl hc
  | line hdoc hline =>
    refine .inr ⟨startsComment_line (docMarker_eq_none_iff.1 hdoc), fun hbegins => ?_⟩
    cases hbegins
  | @block body _ hdoc hbody =>
    have htext : '/' :: '*' :: (body ++ ['*', '/']) ++ rest =
        '/' :: '*' :: (body ++ '*' :: '/' :: rest) := by simp
    rw [htext]
    refine .inr ⟨startsComment_block (docMarker_eq_none_iff.1 hdoc), fun hbegins => ?_⟩
    cases hbegins with
    | comment hopen => exact hopen _ rest (closes_of_blockBody hbody) (by simp)

/-- What stands at the start of a text, told by its characters. -/
theorem next_eq_stop_iff {t : Text} : next t = .stop ↔
    t.head?.any Text.isBlank = false ∧ startsComment t = false := by
  refine ⟨startsComment_of_stop, ?_⟩
  rintro ⟨hblank, hcomment⟩
  cases h : next t with
  | stop => rfl
  | unterminated =>
    rw [startsComment_of_unterminated h] at hcomment
    cases hcomment
  | piece text rest =>
    have hstarts := (made_of_next h).starts
    rw [next_append h, hblank, hcomment] at hstarts
    simp at hstarts

theorem next_eq_unterminated_iff {t : Text} : next t = .unterminated ↔
    startsComment t = true ∧ Fault.commentUnterminated.Begins t := by
  refine ⟨fun h => ⟨startsComment_of_unterminated h, begins_of_next h⟩, ?_⟩
  rintro ⟨hcomment, hbegins⟩
  cases h : next t with
  | stop =>
    rw [(startsComment_of_stop h).2] at hcomment
    cases hcomment
  | unterminated => rfl
  | piece text rest =>
    have hstarts := (made_of_next h).starts
    rw [next_append h] at hstarts
    rcases hstarts with hblank | ⟨-, hclosed⟩
    · cases hbegins with
      | comment => cases hblank
    · exact absurd hbegins hclosed

/-! ## Reading trivia -/

theorem Made.read {text rest : Text} (h : Made text rest) (p : Position) :
    read p (text ++ rest) =
      (read (p.after text) rest).map fun r => (text ++ r.1, r.2) := by
  rw [Trivia.read]
  split
  · rename_i hn; rw [h.next] at hn; cases hn
  · rename_i hn; rw [h.next] at hn; cases hn
  · rename_i hn
    rw [h.next] at hn
    cases hn
    split <;> rename_i hr <;> rw [hr] <;> rfl

/-- A piece of plain trivia is one that the reader finds. -/
theorem made_line {body rest : Text} (hbody : UpToLineEnd body rest)
    (hdoc : opensDoc ('/' :: '/' :: body) = false) : Made ('/' :: '/' :: body) rest := by
  refine .line ?_ (spanLine_of_upToLineEnd hbody)
  rwa [docMarker_eq_none_iff, opensDoc_line body hbody.2.1]

theorem made_block {inner rest : Text} (hinner : Closes inner)
    (hdoc : opensDoc ('/' :: '*' :: inner) = false) : Made ('/' :: '*' :: inner) rest := by
  obtain ⟨body, rfl, hbody⟩ := hinner.blockBody_append
  have htext : '/' :: '*' :: (body ++ '*' :: '/' :: rest) =
      '/' :: '*' :: (body ++ ['*', '/']) ++ rest := by simp
  refine .block ?_ ?_
  · rw [docMarker_eq_none_iff, htext, opensDoc_append (by simp), hdoc]
  · simpa using (hbody rest).1

/-- Plain trivia is read, and reading goes on behind it. -/
theorem Plain.read {trivia rest : Text} (h : Plain rest trivia) (p : Position) :
    read p (trivia ++ rest) =
      (read (p.after trivia) rest).map fun r => (trivia ++ r.1, r.2) := by
  have hstep : ∀ {piece more : Text} (p : Position), Made piece (more ++ rest) →
      (∀ q, Trivia.read q (more ++ rest) =
        (Trivia.read (q.after more) rest).map fun r => (more ++ r.1, r.2)) →
      Trivia.read p (piece ++ more ++ rest) =
        (Trivia.read (p.after (piece ++ more)) rest).map
          fun r => (piece ++ more ++ r.1, r.2) := by
    intro piece more p hmade ih
    rw [List.append_assoc, hmade.read, ih, Position.after_append]
    cases Trivia.read ((p.after piece).after more) rest with
    | error d => rfl
    | ok r => simp [Except.map]
  induction h generalizing p with
  | nil =>
    show Trivia.read p rest = (Trivia.read p rest).map _
    cases Trivia.read p rest <;> rfl
  | blank hc _ ih => exact hstep p (.blank hc) ih
  | line hbody hdoc _ ih => exact hstep p (made_line hbody hdoc) ih
  | block hinner hdoc _ ih => exact hstep p (made_block hinner hdoc) ih

theorem significant_of_read_error {p : Position} {t : Text} {d : Diagnostic}
    (h : read p t = .error d) : significant t = none := by
  unfold significant
  split
  · rename_i hread
    rw [read_position hread p] at h
    cases h
  · rfl

theorem significant_plain {trivia rest : Text} (h : Plain rest trivia) :
    significant (trivia ++ rest) = significant rest := by
  have hread := h.read .start
  cases hrest : read (Position.start.after trivia) rest with
  | error d =>
    rw [hrest] at hread
    rw [significant_of_read_error hrest, significant_of_read_error hread]
  | ok r =>
    rw [hrest] at hread
    rw [significant_of_read hrest, significant_of_read hread]

theorem next_of_read {p : Position} {t trivia rest : Text} (h : read p t = .ok (trivia, rest)) :
    next rest = .stop := by
  cases rest with
  | nil => rfl
  | cons c rest => exact (read_closed h (List.cons_ne_nil c rest)).2.2

theorem shows_iff {t : Text} {c : Option Char} : Shows t c ↔ significant t = some c := by
  constructor
  · rintro ⟨trivia, rest, rfl, hplain, rfl, hblank, hcomment⟩
    rw [significant_plain hplain]
    cases rest with
    | nil => exact significant_final final_nil
    | cons d rest =>
      exact significant_of_stops ⟨List.cons_ne_nil d rest, next_eq_stop_iff.2 ⟨hblank, hcomment⟩⟩
  · intro h
    obtain ⟨trivia, rest, hread, hc⟩ := read_of_significant h .start
    obtain ⟨hblank, hcomment⟩ := next_eq_stop_iff.1 (next_of_read hread)
    exact ⟨trivia, rest, (read_append hread).symm, plain_of_read hread, hc, hblank, hcomment⟩

theorem leavesOpen_iff {t : Text} : LeavesOpen t ↔ significant t = none := by
  constructor
  · rintro ⟨trivia, rest, rfl, hplain, hopen⟩
    rw [significant_plain hplain]
    refine @significant_of_read_error .start _ (.lexical .commentUnterminated .start) ?_
    rw [read]
    split
    · rename_i hn; rw [next_eq_unterminated_iff.2 hopen] at hn; cases hn
    · rfl
    · rename_i hn; rw [next_eq_unterminated_iff.2 hopen] at hn; cases hn
  · intro h
    unfold significant at h
    split at h
    · cases h
    · rename_i hread
      obtain ⟨trivia, rest, ht, hplain, -, hopen⟩ := exists_of_read_error hread
      exact ⟨trivia, rest, ht, hplain, next_eq_unterminated_iff.1 hopen⟩

instance (t : Text) (c : Option Char) : Decidable (Shows t c) :=
  decidable_of_iff _ shows_iff.symm

instance (t : Text) : Decidable (LeavesOpen t) :=
  decidable_of_iff _ leavesOpen_iff.symm

theorem Shows.not_leavesOpen {t : Text} {c : Option Char} (h : Shows t c) : ¬ LeavesOpen t := by
  rw [leavesOpen_iff, shows_iff.1 h]
  exact Option.some_ne_none c

theorem Shows.unique {t : Text} {c c' : Option Char} (h : Shows t c) (h' : Shows t c') : c = c' :=
  Option.some.inj ((shows_iff.1 h).symm.trans (shows_iff.1 h'))

/-- A line ends with blank characters, one of which is a line feed. -/
theorem exists_feed {t : Text} (h : lineEnds t = true) (hne : t ≠ []) :
    ∃ trivia rest, t = trivia ++ rest ∧ Plain rest trivia ∧ '\n' ∈ trivia := by
  obtain ⟨c, rest, rfl⟩ := List.exists_cons_of_ne_nil hne
  simp only [lineEnds, Bool.or_eq_true, Bool.and_eq_true, decide_eq_true_eq] at h
  rcases h with rfl | ⟨rfl, hhead⟩
  · exact ⟨['\n'], rest, rfl, .blank (by decide) .nil, List.mem_singleton_self _⟩
  · obtain ⟨rest, rfl⟩ := List.head?_eq_some_iff.1 hhead
    exact ⟨['\r', '\n'], rest, rfl, .blank (by decide) (.blank (by decide) .nil), by decide⟩

/-! ## The judgement -/

/-- The marks in front of `base`, of which there are `k` behind the first one, are taken for those
of an attribute, if `rest` follows the first line. Behind a single mark this takes a bracket. With
more marks it takes a bracket behind the line as well, and every further mark turns the judgement
round. -/
def Attributive (k : Nat) (base rest : Text) : Prop :=
  (Shows base (some '[') ↔ k % 2 = 0) ∧ (0 < k → Shows rest (some '['))

/-- The judgement meets a comment that does not end: behind the marks, or behind the first line, if
it comes to look there. -/
def Unjudged (k : Nat) (base rest : Text) : Prop :=
  LeavesOpen base ∨ LeavesOpen rest ∧ (1 < k ∨ k = 1 ∧ ¬ Shows base (some '['))

theorem shebangMarks_succ (k : Nat) : shebangMarks (k + 1) = '#' :: '!' :: shebangMarks k := by
  simp [shebangMarks, List.replicate_succ]

theorem spanLine_marks (k : Nat) (base : Text) :
    spanLine (shebangMarks k ++ base) =
      (shebangMarks k ++ (spanLine base).1, (spanLine base).2) := by
  induction k with
  | zero => rfl
  | succ k ih =>
    rw [shebangMarks_succ, List.cons_append, List.cons_append, spanLine_cons rfl, spanLine_cons rfl,
      ih]
    rfl

theorem readShebang_of_error {more : Text} {d : Diagnostic} (h : readShebang more = .error d) :
    readShebang ('#' :: '!' :: more) = .error d := by
  rw [readShebang, h]

theorem readShebang_of_leavesOpen {more line rest : Text}
    (h : readShebang more = .ok (line, rest)) (hopen : LeavesOpen rest) :
    ∃ d, readShebang ('#' :: '!' :: more) = .error d := by
  rw [readShebang, h]
  cases hread : read (Position.start.after line) rest with
  | error d => exact ⟨d, by simp only [hread]⟩
  | ok r =>
    rw [leavesOpen_iff, significant_of_read hread] at hopen
    cases hopen

/-- The judgement of a text that starts with marks, one behind the other. The text behind a mark is
judged before: if it starts with marks that are not those of a line, a hash comes next, otherwise
what stands behind the first line decides. -/
theorem readShebang_marks {base rest : Text} (hbase : ∀ more, base ≠ '#' :: '!' :: more)
    (hrest : (spanLine base).2 = rest) (k : Nat) :
    (Unjudged k base rest ∧ ∃ d, readShebang (shebangMarks (k + 1) ++ base) = .error d) ∨
      (¬ Unjudged k base rest ∧ Attributive k base rest ∧
        readShebang (shebangMarks (k + 1) ++ base) = .ok ([], shebangMarks (k + 1) ++ base)) ∨
      (¬ Unjudged k base rest ∧ ¬ Attributive k base rest ∧
        readShebang (shebangMarks (k + 1) ++ base) =
          .ok (spanLine (shebangMarks (k + 1) ++ base))) := by
  induction k with
  | zero =>
    have hread := readShebang_of_ne hbase
    have hmarks : shebangMarks (0 + 1) ++ base = '#' :: '!' :: base := rfl
    rw [hmarks]
    by_cases hopen : LeavesOpen base
    · exact .inl ⟨.inl hopen, readShebang_of_leavesOpen hread hopen⟩
    have hjudged : ¬ Unjudged 0 base rest := by
      rintro (h | ⟨-, h | ⟨h, -⟩⟩)
      · exact hopen h
      · exact absurd h (by decide)
      · exact absurd h (by decide)
    refine .inr ?_
    obtain ⟨c, hc⟩ := Option.ne_none_iff_exists'.1 (mt leavesOpen_iff.2 hopen)
    rw [readShebang_mark hread hc]
    by_cases hbracket : c = some '['
    · rw [if_pos hbracket]
      have hshows : Shows base (some '[') := shows_iff.2 (hbracket ▸ hc)
      exact .inl ⟨hjudged, ⟨iff_of_true hshows rfl, fun h => absurd h (by decide)⟩, rfl⟩
    · rw [if_neg hbracket]
      exact .inr ⟨hjudged, fun h => hbracket ((shows_iff.2 hc).unique (h.1.2 rfl)), rfl⟩
  | succ k ih =>
    rw [shebangMarks_succ (k + 1), List.cons_append, List.cons_append]
    rcases ih with ⟨hopen, d, hread⟩ | ⟨hjudged, hattr, hread⟩ | ⟨hjudged, hattr, hread⟩
    · refine .inl ⟨hopen.imp_right ?_, d, readShebang_of_error hread⟩
      rintro ⟨h, hk⟩
      exact ⟨h, .inl (by omega)⟩
    · -- the marks behind the first one are no line, so that their hash comes next
      have hs : significant (shebangMarks (k + 1) ++ base) = some (some '#') :=
        significant_of_stops (stops_of_ne (by decide) (by decide) _)
      rw [readShebang_mark hread hs, if_neg (by decide)]
      refine .inr (.inr ⟨?_, fun h => ?_, rfl⟩)
      · rintro (h | ⟨h, hk⟩)
        · exact hjudged (.inl h)
        · rcases Nat.eq_zero_or_pos k with rfl | hpos
          · rcases hk with hk | ⟨-, hshows⟩
            · exact absurd hk (by decide)
            · exact hshows (hattr.1.2 rfl)
          · exact (hattr.2 hpos).not_leavesOpen h
      · have hparity := hattr.1.symm.trans h.1
        omega
    · -- the first line would be an interpreter line behind its first mark
      rw [spanLine_marks, hrest] at hread
      by_cases hopen : LeavesOpen rest
      · refine .inl ⟨.inr ⟨hopen, ?_⟩, readShebang_of_leavesOpen hread hopen⟩
        rcases Nat.eq_zero_or_pos k with rfl | hpos
        · refine .inr ⟨rfl, fun hshows => hattr ⟨iff_of_true hshows rfl, ?_⟩⟩
          exact fun h => absurd h (by decide)
        · exact .inl (by omega)
      have hjudged' : ¬ Unjudged (k + 1) base rest := by
        rintro (h | ⟨h, -⟩)
        · exact hjudged (.inl h)
        · exact hopen h
      refine .inr ?_
      obtain ⟨c, hc⟩ := Option.ne_none_iff_exists'.1 (mt leavesOpen_iff.2 hopen)
      rw [readShebang_mark hread hc]
      by_cases hbracket : c = some '['
      · rw [if_pos hbracket]
        have hshows : Shows rest (some '[') := shows_iff.2 (hbracket ▸ hc)
        have hparity : ¬ (Shows base (some '[') ↔ k % 2 = 0) := fun h => hattr ⟨h, fun _ => hshows⟩
        refine .inl ⟨hjudged', ⟨?_, fun _ => hshows⟩, rfl⟩
        rw [show (k + 1) % 2 = 0 ↔ ¬ k % 2 = 0 by omega]
        exact ⟨fun h hk => hparity (iff_of_true h hk),
          fun hk => Decidable.by_contra fun h => hparity (iff_of_false h hk)⟩
      · rw [if_neg hbracket]
        refine .inr ⟨hjudged', fun h => hbracket ?_, rfl⟩
        exact (shows_iff.2 hc).unique (h.2 (Nat.succ_pos k))

end Trivia

/-! ## A line in front of a text -/

namespace Nesting

/-- The open group with a line put in front of the first trivia of all that it holds. -/
inductive Open.Put (line : Text) : Open → Open → Prop where
  | leading {leading : Text} {pos : Position} {d : Delimiter} :
      Put line ⟨leading, pos, d, []⟩ ⟨line ++ leading, pos, d, []⟩
  | before {leading : Text} {pos : Position} {d : Delimiter} {more : List Token} {t : Token} :
      Put line ⟨leading, pos, d, more ++ [t]⟩
        ⟨leading, pos, d, more ++ [t.withLeading (line ++ t.leading)]⟩

/-- Brackets are matched in the same way whatever stands in front of the first token, be it a token
that has been read or the bracket of the outermost open group. -/
theorem build_put (line : Text) (lexemes : List Lexeme) (ending : Except Diagnostic Text) :
    (∀ done t, build [] (done ++ [t.withLeading (line ++ t.leading)]) lexemes ending =
        (build [] (done ++ [t]) lexemes ending).map (·.prepend line)) ∧
      ∀ inner o o' done, Open.Put line o o' →
        build (inner ++ [o']) done lexemes ending =
          (build (inner ++ [o]) done lexemes ending).map (·.prepend line) := by
  induction lexemes with
  | nil =>
    cases ending with
    | error d => exact ⟨fun _ _ => rfl, fun _ _ _ _ _ => rfl⟩
    | ok trailing =>
      refine ⟨fun done t => ?_, fun inner o o' done h => ?_⟩
      · simp [build, Except.map, TokenStream.prepend]
      · cases inner with
        | nil => cases h <;> rfl
        | cons i inner => rfl
  | cons l lexemes ih =>
    obtain ⟨ihdone, ihopen⟩ := ih
    obtain ⟨leading, pos, glyph⟩ := l
    cases glyph with
    | atom a =>
      exact ⟨fun done t => ihdone (.atom leading pos a :: done) t,
        fun inner o o' done h => ihopen inner o o' _ h⟩
    | opening d =>
      exact ⟨fun done t => ihopen [] _ _ [] .before,
        fun inner o o' done h => ihopen (⟨leading, pos, d, done⟩ :: inner) o o' [] h⟩
    | closing d =>
      refine ⟨fun _ _ => rfl, fun inner o o' done h => ?_⟩
      cases inner with
      | nil =>
        -- the outermost group is closed, and becomes a token
        cases h with
        | @leading l p d' =>
          simp only [List.nil_append, build]
          split
          · exact ihdone [] (.group l p d done.reverse leading)
          · rfl
        | @before l p d' more t =>
          simp only [List.nil_append, build]
          split
          · exact ihdone (.group l p d done.reverse leading :: more) t
          · rfl
      | cons i inner =>
        simp only [List.cons_append, build]
        split
        · exact ihopen inner o o' _ h
        · rfl

end Nesting

namespace Lexing

/-- Trees are built behind a line as they are without it. -/
theorem tree_prepend (line : Text) (l : Lexing) :
    (l.prepend line).tree = l.tree.map (·.prepend line) := by
  obtain ⟨_ | ⟨first, more⟩, ending⟩ := l
  · cases ending <;> rfl
  · obtain ⟨leading, pos, glyph⟩ := first
    obtain ⟨hdone, hopen⟩ := Nesting.build_put line more ending
    cases glyph with
    | atom a => exact hdone [] (.atom leading pos a)
    | opening d => exact hopen [] _ _ [] .leading
    | closing d => rfl

/-- Lexing depends on what trivia is read and on the position behind it. -/
theorem scan_congr {p q : Position} {t : Text} (hread : Trivia.read p t = Trivia.read q t)
    (hafter : ∀ leading rest, Trivia.read q t = .ok (leading, rest) →
      p.after leading = q.after leading) : scan p t = scan q t := by
  rw [scan, scan.eq_def q]
  split <;> rename_i hp <;> rw [hread] at hp
  · split <;> rename_i hq <;> rw [hq] at hp <;> cases hp
    rfl
  · split <;> rename_i hq <;> rw [hq] at hp <;> cases hp
    rfl
  · rw [hafter _ _ hp]
    symm
    split <;> rename_i hq <;> rw [hq] at hp <;> cases hp
    rfl

/-- Where a line ends columns are counted anew, so that the length of the line does not matter. -/
theorem scan_lineEnds {p q : Position} {t : Text} (hline : p.line = q.line)
    (hend : lineEnds t = true) : scan p t = scan q t := by
  by_cases hnil : t = []
  · rw [hnil, scan_final Trivia.final_nil, scan_final Trivia.final_nil]
  obtain ⟨trivia, rest, rfl, hplain, hfeed⟩ := Trivia.exists_feed hend hnil
  have hread : ∀ p : Position, Trivia.read p (trivia ++ rest) =
      (Trivia.read (p.after trivia) rest).map fun r => (trivia ++ r.1, r.2) := hplain.read
  refine scan_congr ?_ fun leading after hleading => ?_
  · rw [hread, hread, Position.after_eq_of_mem hfeed hline]
  · refine Position.after_eq_of_mem ?_ hline
    rw [hread] at hleading
    cases h : Trivia.read (q.after trivia) rest with
    | error d =>
      rw [h] at hleading
      cases hleading
    | ok r =>
      rw [h] at hleading
      cases hleading
      exact List.mem_append_left _ hfeed

end Lexing

/-- The first trivia of a stream. -/
def TokenStream.frontTrivia : TokenStream → Text
  | ⟨[], trailing⟩ => trailing
  | ⟨t :: _, _⟩ => t.leading

theorem Lexing.tree_prepend_nil (l : Lexing) : (l.prepend []).tree = l.tree := by
  rw [tree_prepend]
  cases l.tree with
  | error d => rfl
  | ok stream => exact congrArg Except.ok stream.prepend_nil

/-- A text without an interpreter line is lexed from its start. -/
theorem tokenize_of_no_line {t : Text} (h : Trivia.readShebang t = .ok ([], t)) :
    tokenize t = (Lexing.scan .start t).tree := by
  rw [tokenize, Lexing.ofText, h]
  exact Lexing.tree_prepend_nil _

/-- An interpreter line is put in front of what the text behind it is read as. -/
theorem tokenize_of_line {t line rest : Text} (h : Trivia.readShebang t = .ok (line, rest))
    (hline : UpToLineEnd line rest) : tokenize t = (tokenize rest).map (·.prepend line) := by
  obtain ⟨hfeed, hend, -⟩ := hline
  have hrest : Trivia.readShebang rest = .ok ([], rest) := by
    refine Trivia.readShebang_of_ne fun more hmore => (Trivia.lineEnds_head hend).2.2.2 ?_
    rw [hmore]
    rfl
  have hscan : Lexing.scan (Position.start.after line) rest = Lexing.scan .start rest := by
    refine Lexing.scan_lineEnds ?_ hend
    rw [Position.after_eq_of_not_mem hfeed]
  rw [tokenize_of_no_line hrest, tokenize, Lexing.ofText, h, ← hscan]
  exact Lexing.tree_prepend line _

/-- The stream starts with the two marks of an inner attribute, and with nothing in front. -/
def TokenStream.StartsMarked (stream : TokenStream) : Prop :=
  ∃ pos pos' joint more, stream.tokens =
    .atom [] pos (.punct '#' true) :: .atom [] pos' (.punct '!' joint) :: more

theorem Token.exists_of_signsAll {ts : List Token} {leading : Text} {a : Atom} {more : List Sign}
    (h : ⟨leading, .atom a⟩ :: more = signsAll ts) :
    ∃ pos rest, ts = .atom leading pos a :: rest ∧ more = signsAll rest := by
  cases ts with
  | nil => cases h
  | cons t rest =>
    cases t with
    | group => cases h
    | atom _ pos _ =>
      cases h
      exact ⟨pos, rest, rfl, rfl⟩

theorem startsMarked_of_tokenize {more : Text} {stream : TokenStream}
    (hline : Trivia.readShebang ('#' :: '!' :: more) = .ok ([], '#' :: '!' :: more))
    (h : tokenize ('#' :: '!' :: more) = .ok stream) : stream.StartsMarked := by
  have hhash : (Glyph.atom (.punct '#' true)).Fits ('!' :: more) :=
    Glyph.fits_punct (by decide) (by decide)
  have hbang : (Glyph.atom (.punct '!' (more.head?.any isPunctuation))).Fits more :=
    Glyph.fits_punct (by decide) (by decide)
  have hfirst := @Lexing.scan_of_glyph .start [] _ _ Trivia.closed_nil hhash
  have hsecond := fun p => @Lexing.scan_of_glyph p [] _ _ Trivia.closed_nil hbang
  have hlexemes : (Lexing.scan .start ('#' :: '!' :: more)).lexemes = _ :: _ :: _ :=
    (congrArg Lexing.lexemes hfirst).trans
      (congrArg (List.cons _) (congrArg Lexing.lexemes (hsecond _)))
  rw [tokenize_of_no_line hline, Lexing.tree, hlexemes] at h
  obtain ⟨-, hsigns⟩ := Nesting.signs_of_build h
  obtain ⟨pos, ts, htokens, hmore⟩ := Token.exists_of_signsAll hsigns
  obtain ⟨pos', ts', rfl, -⟩ := Token.exists_of_signsAll hmore
  exact ⟨pos, pos', _, ts', htokens⟩

/-- A text that starts with no mark starts with blank characters, ordinary comments, and a token. -/
theorem TokenStream.plain_frontTrivia {t : Text} {stream : TokenStream}
    (h : tokenize t = .ok stream) (hmark : ∀ more, t ≠ '#' :: '!' :: more) :
    ∃ rest, t = stream.frontTrivia ++ rest ∧ Trivia.Plain rest stream.frontTrivia := by
  obtain ⟨line, source, hline, ⟨hruns, hfinal⟩, rfl⟩ := tokenize_runs h
  rw [Trivia.readShebang_of_ne hmark] at hline
  obtain ⟨rfl, rfl⟩ := Prod.mk.inj (Except.ok.inj hline)
  rw [prepend_nil]
  obtain ⟨_ | ⟨first, more⟩, trailing⟩ := source
  · exact ⟨[], (List.append_nil _).symm, hfinal.plain⟩
  · rw [Token.signsAll, Token.signs_eq_cons] at hruns
    obtain ⟨hclosed, hfits, -⟩ := hruns
    refine ⟨_, ?_, hclosed.plain hfits.stops⟩
    rw [render_eq_textAll, Token.signsAll, Token.signs_eq_cons]
    simp [Sign.textAll, Sign.text, frontTrivia]

/-! ## The first line -/

theorem tokenize_of_readShebang_error {t : Text} {d : Diagnostic}
    (h : Trivia.readShebang t = .error d) :
    tokenize t = .error d ∧ d.fault = .commentUnterminated := by
  constructor
  · rw [tokenize, Lexing.ofText, h]
    rfl
  · obtain ⟨_, _, _, _, -, -, -, -, rfl, -⟩ := Trivia.begins_of_readShebang h
    rfl

open Trivia (Shows LeavesOpen Attributive Unjudged shebangMarks)

/-- The first line of a text with `k` further marks behind the first one. -/
theorem tokenize_marks {more base line rest : Text} {k : Nat} (hbase : ¬ ['#', '!'] <+: base)
    (hmore : more = shebangMarks k ++ base) (hspan : spanLine ('#' :: '!' :: more) = (line, rest))
    (hline : UpToLineEnd line rest) :
    (Unjudged k base rest → ∃ d, tokenize ('#' :: '!' :: more) = .error d ∧
        d.fault = .commentUnterminated) ∧
      (¬ Unjudged k base rest → Attributive k base rest → ∀ stream,
        tokenize ('#' :: '!' :: more) = .ok stream → stream.StartsMarked) ∧
      (¬ Unjudged k base rest → ¬ Attributive k base rest →
        tokenize ('#' :: '!' :: more) = (tokenize rest).map (·.prepend line)) := by
  have htext : '#' :: '!' :: more = shebangMarks (k + 1) ++ base := by
    rw [Trivia.shebangMarks_succ, hmore]
    rfl
  have hrest : (spanLine base).2 = rest := by
    rw [htext, Trivia.spanLine_marks] at hspan
    exact (Prod.mk.inj hspan).2
  have hne : ∀ more, base ≠ '#' :: '!' :: more := by
    rintro more rfl
    exact hbase ⟨more, rfl⟩
  have hjudgement := Trivia.readShebang_marks hne hrest k
  rw [← htext, hspan] at hjudgement
  rcases hjudgement with ⟨hopen, d, hread⟩ | ⟨hjudged, hattr, hread⟩ | ⟨hjudged, hattr, hread⟩
  · exact ⟨fun _ => ⟨d, tokenize_of_readShebang_error hread⟩, fun h => absurd hopen h,
      fun h => absurd hopen h⟩
  · exact ⟨fun h => absurd h hjudged, fun _ _ stream h => startsMarked_of_tokenize hread h,
      fun _ h => absurd hattr h⟩
  · exact ⟨fun h => absurd h hjudged, fun _ h => absurd h hattr,
      fun _ _ => tokenize_of_line hread hline⟩

/-- Behind the marks at the start of a text there is something else. -/
theorem Trivia.exists_marks (t : Text) :
    ∃ k base, t = shebangMarks k ++ base ∧ ¬ ['#', '!'] <+: base := by
  induction hn : t.length using Nat.strongRecOn generalizing t with
  | ind n ih =>
    by_cases hmark : ['#', '!'] <+: t
    · obtain ⟨more, rfl⟩ := hmark
      have hlength : more.length < n := by
        rw [← hn, List.length_append]
        exact Nat.lt_add_of_pos_left (by decide)
      obtain ⟨k, base, hmore, hbase⟩ := ih more.length hlength more rfl
      refine ⟨k + 1, base, ?_, hbase⟩
      rw [shebangMarks_succ, hmore]
      rfl
    · exact ⟨0, t, rfl, hmark⟩

theorem Trivia.unjudged_zero {base rest : Text} : Unjudged 0 base rest ↔ LeavesOpen base := by
  simp [Unjudged]

theorem Trivia.attributive_zero {base rest : Text} :
    Attributive 0 base rest ↔ Shows base (some '[') := by
  simp [Attributive]

/-- A bracket behind the first mark leaves no room for another one. -/
theorem Trivia.Shows.not_mark {t : Text} (h : Shows t (some '[')) : ¬ ['#', '!'] <+: t := by
  rintro ⟨more, rfl⟩
  have hhash : Shows (['#', '!'] ++ more) (some '#') :=
    shows_iff.2 (significant_of_stops (stops_of_ne (by decide) (by decide) _))
  exact absurd (h.unique hhash) (by decide)

/-- The first line of every text. Let `#!` start the text, and let `line` be its first line. If the
first thing behind `#!` is a bracket, the two characters are the first two tokens. If it is not, no
comment is left open there and no further mark follows, the line is put in front of the first trivia
of the text behind it, which is read as if it stood alone. With `k` further marks in front of
`base`, the text cannot be read if the judgement meets a comment that does not end, the marks are
tokens if they are taken for those of an attribute, and otherwise the line is trivia. A text that
does not start with `#!` is lexed from its first character on, and starts with plain trivia. -/
theorem tokenize_interpreter_line (t : Text) :
    (∀ more, t = '#' :: '!' :: more → ∃ line rest, t = line ++ rest ∧ UpToLineEnd line rest ∧
      (Shows more (some '[') → ∀ stream, tokenize t = .ok stream → stream.StartsMarked) ∧
      (¬ Shows more (some '[') → ¬ LeavesOpen more → ¬ ['#', '!'] <+: more →
        tokenize t = (tokenize rest).map (·.prepend line)) ∧
      ∃ k base, more = shebangMarks k ++ base ∧ ¬ ['#', '!'] <+: base ∧
        (Unjudged k base rest → ∃ d, tokenize t = .error d ∧ d.fault = .commentUnterminated) ∧
        (¬ Unjudged k base rest → Attributive k base rest → ∀ stream,
          tokenize t = .ok stream → stream.StartsMarked) ∧
        (¬ Unjudged k base rest → ¬ Attributive k base rest →
          tokenize t = (tokenize rest).map (·.prepend line))) ∧
    (¬ ['#', '!'] <+: t → tokenize t = (Lexing.scan .start t).tree ∧
      ∀ stream, tokenize t = .ok stream →
        ∃ rest, t = stream.frontTrivia ++ rest ∧ Trivia.Plain rest stream.frontTrivia) := by
  refine ⟨?_, fun hmark => ?_⟩
  · rintro more rfl
    have htext := spanLine_append ('#' :: '!' :: more)
    cases hspan : spanLine ('#' :: '!' :: more) with
    | mk line rest =>
      rw [hspan] at htext
      have hline : UpToLineEnd line rest := upToLineEnd_of_spanLine (by rw [htext, hspan])
      refine ⟨line, rest, htext.symm, hline, fun hshows => ?_, fun hother hclosed hbase => ?_, ?_⟩
      · obtain ⟨-, hattr, -⟩ :=
          @tokenize_marks more more line rest 0 hshows.not_mark rfl hspan hline
        rw [Trivia.unjudged_zero, Trivia.attributive_zero] at hattr
        exact hattr hshows.not_leavesOpen hshows
      · obtain ⟨-, -, htrivia⟩ := @tokenize_marks more more line rest 0 hbase rfl hspan hline
        rw [Trivia.unjudged_zero, Trivia.attributive_zero] at htrivia
        exact htrivia hclosed hother
      · obtain ⟨k, base, hmore, hbase⟩ := Trivia.exists_marks more
        exact ⟨k, base, hmore, hbase, tokenize_marks hbase hmore hspan hline⟩
  · have hne : ∀ more, t ≠ '#' :: '!' :: more := fun more hmore => hmark ⟨more, hmore.symm⟩
    exact ⟨tokenize_of_no_line (Trivia.readShebang_of_ne hne),
      fun stream h => TokenStream.plain_frontTrivia h hne⟩

/-- A bracket in the second line does not turn the first one into an attribute. -/
theorem tokenize_interpreter_line_script :
    let more : Text := "/bin/sh\n[x]"
    ¬ Shows more (some '[') ∧ ¬ LeavesOpen more ∧ ¬ ['#', '!'] <+: more ∧
      ∃ line rest, '#' :: '!' :: more = line ++ rest ∧ UpToLineEnd line rest ∧
        tokenize ('#' :: '!' :: more) = (tokenize rest).map (·.prepend line) := by
  intro more
  have hother : ¬ Shows more (some '[') := by decide +kernel
  have hclosed : ¬ LeavesOpen more := by decide +kernel
  have hmark : ¬ ['#', '!'] <+: more := by decide +kernel
  obtain ⟨line, rest, htext, hline, -, htrivia, -⟩ :=
    (tokenize_interpreter_line ('#' :: '!' :: more)).1 more rfl
  exact ⟨hother, hclosed, hmark, line, rest, htext, hline, htrivia hother hclosed hmark⟩

/-- Two first lines that are not trivia, though the first thing behind `#!` is no bracket and the
text behind the line can be read. Behind the first one a further mark follows, and a bracket stands
in the next line. In the second one a comment is opened. -/
theorem tokenize_line_misjudged :
    (Shows "#! x\n[]" (some '#') ∧ UpToLineEnd "#!#! x" "\n[]" ∧
      (tokenize "\n[]").isOk = true ∧ (tokenize "#!#! x\n[]").isOk = true ∧
      tokenize "#!#! x\n[]" ≠ (tokenize "\n[]").map (·.prepend "#!#! x")) ∧
    LeavesOpen "/*\n" ∧ UpToLineEnd "#!/*" "\n" ∧ (tokenize "\n").isOk = true ∧
      tokenize "#!/*\n" = .error (.lexical .commentUnterminated ⟨1, 1⟩) := by
  refine ⟨⟨by decide +kernel, upToLineEnd_of_spanLine (by decide +kernel), by decide +kernel,
    by decide +kernel, fun heq => ?_⟩, by decide +kernel,
    upToLineEnd_of_spanLine (by decide +kernel), by decide +kernel,
    lexicalFault_eq_some_iff.1 (by decide +kernel)⟩
  -- the first text has six tokens, the one behind its first line has one
  have hcount := congrArg (fun r => r.toOption.map fun stream => stream.tokens.length) heq
  exact absurd hcount (by decide +kernel)

end CondAttrs
