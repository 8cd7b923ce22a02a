import CondAttrs.Diagnostic.Basic
import CondAttrs.Text.Blank
import CondAttrs.Token.Basic

/-!
# Trivia

What may stand between two tokens: white space, ordinary line comments and
ordinary block comments. A line comment ends before its line end, so that the
line feed belongs to the white space behind it. Block comments nest. A comment
that opens with one of the four documentation markers is no trivia.

A file may start with an interpreter line, `#!` up to the end of the first line.
It is told apart from an inner attribute by what comes next: if the first thing
behind `#!` that is no trivia is an opening bracket, the two characters belong to
an attribute.

## Main definitions

* `spanLine`, `blockBody`: the extent of the two kinds of comment.
* `DocMarker.read`: whether a documentation comment starts here.
* `Trivia.read`: the longest trivia at the start of a text, and the rest.
* `Trivia.readShebang`: the interpreter line, if there is one.
-/

namespace CondAttrs

/-! ## The extent of comments -/

/-- A line up to its end, and the rest, which starts with the line feed or with a
carriage return and a line feed. -/
def spanLine : Text → Text × Text
  | [] => ([], [])
  | c :: rest =>
    if c = '\n' || (c = '\r' && rest.head? = some '\n') then ([], c :: rest)
    else (c :: (spanLine rest).1, (spanLine rest).2)

/-- What a block comment holds up to its closing mark, and what follows the mark.
The text starts inside the comment, under `depth` further open comments. -/
def blockBody : (depth : Nat) → Text → Option (Text × Text)
  | _, [] => none
  | depth, '/' :: '*' :: rest =>
    (blockBody (depth + 1) rest).map fun (body, after) => ('/' :: '*' :: body, after)
  | 0, '*' :: '/' :: rest => some ([], rest)
  | depth + 1, '*' :: '/' :: rest =>
    (blockBody depth rest).map fun (body, after) => ('*' :: '/' :: body, after)
  | depth, c :: rest => (blockBody depth rest).map fun (body, after) => (c :: body, after)

/-- The line and the rest make up the text. -/
theorem spanLine_append (t : Text) : (spanLine t).1 ++ (spanLine t).2 = t := by
  induction t with
  | nil => rfl
  | cons c rest ih =>
    simp only [spanLine]
    split <;> simp [ih]

/-- The body, the closing mark and the rest make up the text. -/
theorem blockBody_append {depth : Nat} {t body after : Text}
    (h : blockBody depth t = some (body, after)) : body ++ '*' :: '/' :: after = t := by
  fun_induction blockBody depth t generalizing body with
  | case1 => simp at h
  | case2 depth rest ih =>
    simp only [Option.map_eq_some_iff, Prod.mk.injEq, Prod.exists] at h
    obtain ⟨b, a, hb, rfl, rfl⟩ := h
    simp [ih hb]
  | case3 rest =>
    simp only [Option.some.injEq, Prod.mk.injEq] at h
    obtain ⟨rfl, rfl⟩ := h
    rfl
  | case4 depth rest ih =>
    simp only [Option.map_eq_some_iff, Prod.mk.injEq, Prod.exists] at h
    obtain ⟨b, a, hb, rfl, rfl⟩ := h
    simp [ih hb]
  | case5 depth c rest _ _ _ ih =>
    simp only [Option.map_eq_some_iff, Prod.mk.injEq, Prod.exists] at h
    obtain ⟨b, a, hb, rfl, rfl⟩ := h
    simp [ih hb]

/-- The documentation marker at the start of a text, and the rest. A fourth slash
or third star makes an ordinary comment, and so does a comment that closes at
once. -/
def DocMarker.read : Text → Option (DocMarker × Text)
  | '/' :: '/' :: '/' :: rest =>
    if rest.head? = some '/' then none else some (.outerLine, rest)
  | '/' :: '/' :: '!' :: rest => some (.innerLine, rest)
  | '/' :: '*' :: '*' :: rest =>
    if rest.head? = some '*' || rest.head? = some '/' then none else some (.outerBlock, rest)
  | '/' :: '*' :: '!' :: rest => some (.innerBlock, rest)
  | _ => none

/-- The marker and the rest make up the text. -/
theorem DocMarker.read_append {t rest : Text} {m : DocMarker}
    (h : DocMarker.read t = some (m, rest)) : m.opening ++ rest = t := by
  unfold DocMarker.read at h
  split at h
  · split at h
    · simp at h
    · simp only [Option.some.injEq, Prod.mk.injEq] at h
      obtain ⟨rfl, rfl⟩ := h
      rfl
  · simp only [Option.some.injEq, Prod.mk.injEq] at h
    obtain ⟨rfl, rfl⟩ := h
    rfl
  · split at h
    · simp at h
    · simp only [Option.some.injEq, Prod.mk.injEq] at h
      obtain ⟨rfl, rfl⟩ := h
      rfl
  · simp only [Option.some.injEq, Prod.mk.injEq] at h
    obtain ⟨rfl, rfl⟩ := h
    rfl
  · simp at h

/-! ## Reading trivia -/

namespace Trivia

/-- One piece of trivia at the start of a text. -/
inductive Piece where
  /-- The text starts with a piece; `rest` is what follows it. -/
  | piece (text : Text) (rest : Text)
  /-- The text ends, or a token starts. -/
  | stop
  /-- The text starts with a comment that does not end. -/
  | unterminated

/-- The piece of trivia at the start of a text. -/
def next : Text → Piece
  | [] => .stop
  | c :: rest =>
    if Text.isBlank c then .piece [c] rest
    else if (DocMarker.read (c :: rest)).isSome then .stop
    else
      match c, rest with
      | '/', '/' :: more => .piece ('/' :: '/' :: (spanLine more).1) (spanLine more).2
      | '/', '*' :: more =>
        match blockBody 0 more with
        | some (body, after) => .piece ('/' :: '*' :: (body ++ ['*', '/'])) after
        | none => .unterminated
      | _, _ => .stop

/-- The piece and the rest make up the text. -/
theorem next_append {t text rest : Text} (h : next t = .piece text rest) : text ++ rest = t := by
  unfold next at h
  split at h
  · cases h
  split at h
  · cases h; rfl
  split at h
  · cases h
  split at h
  · cases h
    simp [spanLine_append]
  · split at h
    · rename_i hb
      cases h
      simp [← blockBody_append hb]
    · cases h
  · cases h

/-- A piece of trivia is not empty. -/
theorem next_ne_nil {t text rest : Text} (h : next t = .piece text rest) : text ≠ [] := by
  unfold next at h
  split at h
  · cases h
  split at h
  · cases h; simp
  split at h
  · cases h
  split at h
  · cases h; simp
  · split at h
    · cases h; simp
    · cases h
  · cases h

/-- Behind a piece of trivia there is less to read. -/
theorem next_length_lt {t text rest : Text} (h : next t = .piece text rest) :
    rest.length < t.length := by
  have hne := next_ne_nil h
  have := List.length_pos_iff.2 hne
  rw [← next_append h, List.length_append]
  omega

/-- The longest trivia at the start of a text that stands at `p`, and the rest. -/
def read (p : Position) (t : Text) : Except Diagnostic (Text × Text) :=
  match _h : next t with
  | .stop => .ok ([], t)
  | .unterminated => .error (.lexical .commentUnterminated p)
  | .piece text rest =>
    match read (p.after text) rest with
    | .error d => .error d
    | .ok (more, rest) => .ok (text ++ more, rest)
termination_by t.length
decreasing_by exact next_length_lt _h

/-- The trivia and the rest make up the text. -/
theorem read_append {p : Position} {t trivia rest : Text}
    (h : read p t = .ok (trivia, rest)) : trivia ++ rest = t := by
  fun_induction read p t generalizing trivia rest with
  | case1 p t hn => simp_all
  | case2 => simp at h
  | case3 => simp at h
  | case4 p t text rest' hn more rest'' hr ih =>
    simp only [Except.ok.injEq, Prod.mk.injEq] at h
    obtain ⟨rfl, rfl⟩ := h
    rw [List.append_assoc, ih hr, next_append hn]

/-- The interpreter line at the start of a whole text, empty if there is none, and
the rest. What follows `#!` is judged as a text of its own, which may in turn
start with an interpreter line. -/
def readShebang (t : Text) : Except Diagnostic (Text × Text) :=
  match t with
  | '#' :: '!' :: more =>
    match readShebang more with
    | .error d => .error d
    | .ok (line, rest) =>
      match read (Position.start.after line) rest with
      | .error d => .error d
      | .ok (_, '[' :: _) => .ok ([], '#' :: '!' :: more)
      | .ok (_, _) => .ok (spanLine ('#' :: '!' :: more))
  | t => .ok ([], t)

/-- The interpreter line and the rest make up the text. -/
theorem readShebang_append {t line rest : Text}
    (h : readShebang t = .ok (line, rest)) : line ++ rest = t := by
  unfold readShebang at h
  split at h
  · rename_i more
    split at h
    · cases h
    · split at h
      · cases h
      · simp only [Except.ok.injEq, Prod.mk.injEq] at h
        obtain ⟨rfl, rfl⟩ := h
        rfl
      · simp only [Except.ok.injEq] at h
        have := spanLine_append ('#' :: '!' :: more)
        rw [h] at this
        exact this
  · simp only [Except.ok.injEq, Prod.mk.injEq] at h
    obtain ⟨rfl, rfl⟩ := h
    rfl

end Trivia

end CondAttrs
