import CondAttrs.Proofs.Files.World
import CondAttrs.Proofs.Lexical.Shebang
import CondAttrs.Proofs.Lowering.Content
import CondAttrs.Settings.Load
import Mathlib

/-!
# Settings that are accepted

The loader of settings files and the lexer each have their own idea of a name. A name that the
loader accepts is an identifier of plain letters, digits and underscores, possibly with a line feed
behind it. Without the line feed the lexer reads it as one identifier, with nothing around it. The
line feed is white space to the lexer, so that a name with one is no identifier of any text.

## Main definitions

* `ReadsAsName`: a text is lexed as one identifier and nothing else.
* `Settings.Accepted`: what the loader has made sure of.

## Main statements

* `Settings.isName_iff`: the names that the loader accepts.
* `tokenize_identifier`: how an identifier is lexed in front of white space.
* `Settings.load_names`: accepted names are identifiers, unless they end in a line feed.
* `Settings.load_line_feed`: a name with a line feed is accepted.
-/

namespace CondAttrs

/-! ## Lexing identifiers -/

/-- The text is lexed as one identifier with no trivia. -/
def ReadsAsName (name : Text) : Prop :=
  tokenize name = .ok ⟨[.atom [] .start (.ident name)], []⟩

/-- A token at the start of a text, in front of trivia that ends it. -/
theorem tokenize_atom {a : Atom} {trailing : Text} (hfits : (Glyph.atom a).Fits trailing)
    (hhash : a.text.head? ≠ some '#') (hfinal : Trivia.Final trailing) :
    tokenize (a.text ++ trailing) = .ok ⟨[.atom [] .start a], trailing⟩ := by
  obtain ⟨c, more, htext⟩ := List.exists_cons_of_ne_nil hfits.ne_nil
  have hshebang : Trivia.readShebang (a.text ++ trailing) = .ok ([], a.text ++ trailing) := by
    refine Trivia.readShebang_of_ne fun rest hrest => hhash ?_
    rw [show a.text = c :: more from htext] at hrest ⊢
    rw [(List.cons.inj hrest).1, List.head?_cons]
  have hscan := Lexing.scan_of_glyph (p := .start) Trivia.closed_nil hfits
  rw [Lexing.scan_final hfinal] at hscan
  rw [tokenize, Lexing.ofText, hshebang]
  exact congrArg (fun l => (Lexing.prepend [] l).tree) hscan

/-- An identifier in front of trivia that ends it. -/
theorem tokenize_identifier {name trailing : Text} (hname : Settings.isIdentifier name = true)
    (hend : trailing.head?.all Glyph.endsWord = true) (hfinal : Trivia.Final trailing) :
    tokenize (name ++ trailing) = .ok ⟨[.atom [] .start (.ident name)], trailing⟩ := by
  cases name with
  | nil => cases hname
  | cons c w =>
    simp only [Settings.isIdentifier, Bool.and_eq_true, List.all_eq_true] at hname
    refine tokenize_atom (Glyph.fits_word (Settings.isWordStart_of_isNameStart hname.1)
      (fun x hx => Settings.isWordPart_of_isNamePart (hname.2 x hx)) hend) ?_ hfinal
    rintro heq
    obtain rfl : c = '#' := Option.some.inj heq
    exact absurd hname.1 (by decide)

theorem final_line_feed : Trivia.Final ['\n'] := fun _ =>
  Trivia.read_of_next (Trivia.Made.blank (by decide)).next (Trivia.final_nil _)

namespace Settings

/-! ## Names -/

/-- A name is an identifier, or an identifier and a line feed. -/
theorem isName_iff {name : Text} :
    isName name = true ↔
      ∃ base, isIdentifier base = true ∧ (name = base ∨ name = base ++ ['\n']) := by
  constructor
  · intro h
    cases name with
    | nil => cases h
    | cons c rest =>
      rw [isName, Bool.and_eq_true, Bool.or_eq_true, Bool.and_eq_true, decide_eq_true_iff] at h
      obtain ⟨hstart, hrest | ⟨hlast, hrest⟩⟩ := h
      · exact ⟨c :: rest, by simp [isIdentifier, hstart, hrest], .inl rfl⟩
      · refine ⟨c :: rest.dropLast, by simp [isIdentifier, hstart, hrest], .inr ?_⟩
        rw [List.cons_append, List.dropLast_append_getLast? _ hlast]
  · rintro ⟨base, hbase, rfl | rfl⟩
    · cases name with
      | nil => cases hbase
      | cons c rest =>
        rw [isIdentifier, Bool.and_eq_true] at hbase
        simp [isName, hbase.1, hbase.2]
    · cases base with
      | nil => cases hbase
      | cons c rest =>
        rw [isIdentifier, Bool.and_eq_true] at hbase
        rw [List.cons_append, isName, List.getLast?_concat, List.dropLast_concat]
        simp [hbase.1, hbase.2]

/-- The last character of an identifier is no line feed. -/
theorem getLast?_of_isIdentifier {name : Text} (h : isIdentifier name = true) :
    name.getLast? ≠ some '\n' := by
  intro hlast
  have hmem := List.mem_of_getLast? hlast
  cases name with
  | nil => cases hmem
  | cons c rest =>
    rw [isIdentifier, Bool.and_eq_true, List.all_eq_true] at h
    rcases List.mem_cons.1 hmem with rfl | hmem
    · exact absurd h.1 (by decide)
    · exact absurd (h.2 _ hmem) (by decide)

/-- How an accepted name is lexed. -/
theorem readsAsName_iff {name : Text} (h : isName name = true) :
    (ReadsAsName name ↔ name.getLast? ≠ some '\n') ∧
      (name.getLast? = some '\n' →
        tokenize name = .ok ⟨[.atom [] .start (.ident name.dropLast)], ['\n']⟩) := by
  obtain ⟨base, hbase, rfl | rfl⟩ := isName_iff.1 h
  · have hlast := getLast?_of_isIdentifier hbase
    have htokenize := tokenize_identifier hbase rfl Trivia.final_nil
    rw [List.append_nil] at htokenize
    exact ⟨⟨fun _ => hlast, fun _ => htokenize⟩, fun hfeed => absurd hfeed hlast⟩
  · have htokenize := tokenize_identifier hbase (by decide) final_line_feed
    rw [List.getLast?_concat, List.dropLast_concat]
    refine ⟨⟨fun hreads => ?_, fun hne => absurd rfl hne⟩, fun _ => htokenize⟩
    rw [ReadsAsName, htokenize] at hreads
    simp at hreads

/-! ## Loading -/

/-- What the loader has made sure of. -/
structure Accepted (s : Settings) : Prop where
  /-- The names are names. -/
  names : ∀ name ∈ [s.directive, s.native, s.errorName], isName name = true
  /-- The output is not expanded again. -/
  apart : s.directive ≠ s.native
  /-- The names of files end with an extension. -/
  suffix : s.suffix.head? = some '.'

theorem isName_of_nameOf {fields : List (Json.Str × Json.Value)} {key label default name : Text}
    (hdefault : isName default = true) (h : nameOf fields key label default = .ok name) :
    isName name = true := by
  rw [nameOf] at h
  split at h
  · cases h
    exact hdefault
  · split at h
    · rename_i hname
      cases h
      exact hname
    · cases h
  · cases h

theorem accepted_of_ofFields {fields : List (Json.Str × Json.Value)} {s : Settings}
    (h : ofFields fields = .ok s) : s.Accepted := by
  rw [ofFields] at h
  obtain ⟨_, -, h⟩ := exists_of_bind h
  obtain ⟨directive, hdirective, h⟩ := exists_of_bind h
  obtain ⟨_, -, h⟩ := exists_of_bind h
  obtain ⟨native, hnative, h⟩ := exists_of_bind h
  obtain ⟨diagnostics, -, h⟩ := exists_of_bind h
  obtain ⟨errorName, herror, h⟩ := exists_of_bind h
  have hnames : ∀ name ∈ [directive, native, errorName], isName name = true := by
    simp only [List.forall_mem_cons, List.not_mem_nil, false_implies, implies_true, and_true]
    exact ⟨isName_of_nameOf (by decide) hdirective, isName_of_nameOf (by decide) hnative,
      isName_of_nameOf (by decide) herror⟩
  by_cases hne : directive = native
  · rw [if_pos hne] at h
    cases h
  rw [if_neg hne] at h
  -- Whatever the flag for warnings is, the suffix is judged in the same way.
  split at h
  rotate_left 2
  · cases h
  all_goals
    obtain ⟨warnUnsupported, -, h⟩ := exists_of_bind h
    obtain ⟨files, -, h⟩ := exists_of_bind h
    split at h
    · cases h
      exact ⟨hnames, hne, rfl⟩
    · split at h
      · rename_i hdot
        cases h
        exact ⟨hnames, hne, hdot⟩
      · cases h
    · cases h

theorem accepted_of_load {content : Text} {s : Settings} (h : load content = .ok s) :
    s.Accepted := by
  rw [load] at h
  split at h
  · cases h
  · cases h
  · exact accepted_of_ofFields h
  · cases h

/-- The names of accepted settings are lexed as one identifier each, with nothing around it, unless
they end in a line feed, which is then left over. The directive is not the attribute that replaces
it, and the suffix starts with a dot. -/
theorem load_names {content : Text} {s : Settings} (h : load content = .ok s) :
    (∀ name ∈ [s.directive, s.native, s.errorName],
      (ReadsAsName name ↔ name.getLast? ≠ some '\n') ∧
        (name.getLast? = some '\n' →
          tokenize name = .ok ⟨[.atom [] .start (.ident name.dropLast)], ['\n']⟩)) ∧
      s.directive ≠ s.native ∧ s.suffix.head? = some '.' := by
  have haccepted := accepted_of_load h
  exact ⟨fun name hname => readsAsName_iff (haccepted.names name hname), haccepted.apart,
    haccepted.suffix⟩

theorem load_names_when :
    load "\x7b\"directive\":\x7b\"name\":\"when\"\x7d\x7d".toList =
        .ok { directive := "when".toList } ∧
      ReadsAsName "when".toList := by
  have hload : load "\x7b\"directive\":\x7b\"name\":\"when\"\x7d\x7d".toList =
      .ok { directive := "when".toList } := by
    cbv
  exact ⟨hload, ((load_names hload).1 _ (List.mem_cons_self ..)).1.2 (by decide)⟩

/-- A name is accepted with a line feed behind it, and is then no identifier of any text. -/
theorem load_line_feed :
    load "\x7b\"directive\":\x7b\"name\":\"when\\n\"\x7d\x7d".toList =
        .ok { directive := "when\n".toList } ∧
      ¬ ReadsAsName "when\n".toList := by
  refine ⟨by cbv, fun hreads => ?_⟩
  exact (readsAsName_iff (by decide)).1.1 hreads (by decide)

end Settings

end CondAttrs
