import CondAttrs.Pointer
import CondAttrs.Proofs.Escape

/-!
# Pointers name one place

A pointer can be decoded: it starts a segment at every slash, since a slash inside a segment is
written in another way, and in every segment the escape of the slash is undone before that of the
tilde. Decimal numerals can be read back too. So a pointer that is built from names and indices,
step by step, names one place only.

## Main definitions

* `Pointer.decodeSegment`, `Pointer.decode`: the segments of a pointer.
* `Pointer.ofSteps`: the pointer to a place that is reached by a name and an index at every step.

## Main statements

* `Text.decimal_injective`: a number has one numeral.
* `Pointer.ofSegments_injective`: a pointer has one list of segments.
* `Pointer.decode_ofSegments`: a pointer decodes to its segments.
* `Pointer.ofSteps_injective`: a pointer leads along one way.
-/

namespace CondAttrs

/-! ## Numerals -/

namespace Text

/-- The number that a numeral stands for. -/
def value (t : Text) : Nat :=
  t.foldl (fun n c => 10 * n + (c.toNat - 48)) 0

theorem toNat_digit (n : Nat) : (digit n).toNat = 48 + n % 10 := by
  have hlt : n % 10 < 10 := Nat.mod_lt n (by decide)
  have hvalid : (48 + n % 10).isValidChar := Or.inl (by omega)
  rw [digit, Char.ofNat, dif_pos hvalid]
  rfl

theorem value_concat (t : Text) (n : Nat) : value (t ++ [digit n]) = 10 * value t + n % 10 := by
  rw [value, List.foldl_append, List.foldl_cons, List.foldl_nil, toNat_digit,
    Nat.add_sub_cancel_left]
  rfl

theorem value_decimal (n : Nat) : value (decimal n) = n := by
  fun_induction decimal n with
  | case1 n hn =>
    have hvalue := value_concat [] n
    rw [List.nil_append, Nat.mod_eq_of_lt hn] at hvalue
    rw [hvalue]
    exact Nat.zero_add n
  | case2 n hn ih =>
    rw [value_concat, ih]
    omega

theorem decimal_injective {m n : Nat} (h : decimal m = decimal n) : m = n := by
  rw [← value_decimal m, ← value_decimal n, h]

end Text

namespace Pointer

open Text (replaceAll)

/-! ## Segments -/

/-- The two escapes of a segment, made one after the other. -/
def escapeSegment (segment : Text) : Text :=
  replaceAll ['/'] ['~', '1'] (replaceAll ['~'] ['~', '0'] segment)

/-- A segment, its escapes undone: first that of the slash, then that of the tilde. -/
def decodeSegment (piece : Text) : Text :=
  replaceAll ['~', '0'] ['~'] (replaceAll ['~', '1'] ['/'] piece)

/-- The segments of a pointer: the pieces between its slashes, without the one before the first
slash. -/
def decode (pointer : Text) : List Text :=
  (pointer.splitOn '/').tail.map decodeSegment

theorem encodeSegment_eq_escapeSegment (segment : Text) :
    encodeSegment segment = escapeSegment segment := by
  simp only [escapeSegment, Text.replaceAll_singleton, List.flatMap_assoc, encodeSegment]
  congr 1
  funext c
  unfold encodeChar
  split <;> simp_all

/-- Undoing the escape of the slash leaves the escape of the tilde. -/
theorem replaceAll_slash_encodeSegment (segment : Text) :
    replaceAll ['~', '1'] ['/'] (encodeSegment segment) =
      replaceAll ['~'] ['~', '0'] segment := by
  rw [Text.replaceAll_singleton]
  induction segment with
  | nil => rfl
  | cons c rest ih =>
    have hcons : encodeSegment (c :: rest) = encodeChar c ++ encodeSegment rest := rfl
    rw [List.flatMap_cons, ← ih, hcons]
    unfold encodeChar
    split
    · -- the zero keeps the tilde from being taken for the start of an escaped slash
      rw [if_pos rfl, List.cons_append, List.cons_append, List.nil_append,
        Text.replaceAll_of_not_prefix (by simp), Text.replaceAll_cons (by decide)]
      rfl
    · exact Text.replaceAll_append (List.cons_ne_nil _ _) _
    · rename_i htilde _
      rw [if_neg htilde]
      exact Text.replaceAll_cons htilde _

/-- An escaped segment is decoded to the segment. -/
theorem decodeSegment_encodeSegment (segment : Text) :
    decodeSegment (encodeSegment segment) = segment := by
  rw [decodeSegment, replaceAll_slash_encodeSegment, Text.replaceAll_singleton]
  induction segment with
  | nil => rfl
  | cons c rest ih =>
    rw [List.flatMap_cons]
    by_cases hc : c = '~'
    · rw [if_pos hc, Text.replaceAll_append (List.cons_ne_nil _ _), ih, hc]
      rfl
    · rw [if_neg hc, List.cons_append, List.nil_append, Text.replaceAll_cons hc, ih]

/-- No slash is left in an escaped segment. -/
theorem slash_not_mem_encodeSegment (segment : Text) : '/' ∉ encodeSegment segment := by
  intro h
  obtain ⟨d, -, hc⟩ := List.mem_flatMap.1 h
  unfold encodeChar at hc
  split at hc
  · simp at hc
  · simp at hc
  · rename_i hslash
    exact hslash (List.mem_singleton.1 hc).symm

/-- A pointer is its escaped segments behind an empty piece, with slashes between them. -/
theorem ofSegments_eq_intercalate (segments : List Text) :
    ofSegments segments = ['/'].intercalate ([] :: segments.map encodeSegment) := by
  induction segments with
  | nil => rfl
  | cons segment rest ih =>
    have hcons : ofSegments (segment :: rest) = '/' :: encodeSegment segment ++ ofSegments rest :=
      rfl
    rw [hcons, ih]
    cases rest <;> simp [List.intercalate]

/-- The slashes of a pointer are the borders of its segments. -/
theorem splitOn_ofSegments (segments : List Text) :
    (ofSegments segments).splitOn '/' = [] :: segments.map encodeSegment := by
  rw [ofSegments_eq_intercalate]
  refine List.splitOn_intercalate '/' ?_ (List.cons_ne_nil _ _)
  intro piece hpiece
  rcases List.mem_cons.1 hpiece with rfl | hpiece
  · exact List.not_mem_nil
  · obtain ⟨segment, -, rfl⟩ := List.mem_map.1 hpiece
    exact slash_not_mem_encodeSegment segment

theorem leftInverse_decode : Function.LeftInverse decode ofSegments := by
  intro segments
  rw [decode, splitOn_ofSegments, List.tail_cons, List.map_map]
  exact List.map_id'' decodeSegment_encodeSegment segments

/-- A pointer is made of one list of segments. -/
theorem ofSegments_injective {first second : List Text} (h : ofSegments first = ofSegments second) :
    first = second :=
  leftInverse_decode.injective h

/-- A pointer is divided by its slashes into its escaped segments, behind an empty piece, and
undoing the escapes gives the segments back. Appending pointers appends their segments, and other
segments make another pointer. -/
theorem decode_ofSegments :
    (∀ segments, (ofSegments segments).splitOn '/' = [] :: segments.map escapeSegment ∧
      decode (ofSegments segments) = segments) ∧
    (∀ first second, ofSegments first ++ ofSegments second = ofSegments (first ++ second)) ∧
    Function.Injective ofSegments := by
  refine ⟨fun segments => ⟨?_, leftInverse_decode segments⟩, fun first second => ?_,
    leftInverse_decode.injective⟩
  · rw [splitOn_ofSegments, funext encodeSegment_eq_escapeSegment]
  · rw [ofSegments_append]

/-! ## Steps -/

/-- The pointer to the place that some steps lead to, each with the name of a list and the index
of one of its entries. -/
def ofSteps (steps : List (Text × Nat)) : Text :=
  ofSegments (steps.flatMap fun step => [step.1, Text.decimal step.2])

theorem ofSteps_append (first second : List (Text × Nat)) :
    ofSteps (first ++ second) = ofSteps first ++ ofSteps second := by
  rw [ofSteps, List.flatMap_append, ofSegments_append]
  rfl

theorem entry_eq (pointer name : Text) (index : Nat) :
    entry pointer name index = pointer ++ ofSteps [(name, index)] := rfl

theorem entry_ofSteps (steps : List (Text × Nat)) (name : Text) (index : Nat) :
    entry (ofSteps steps) name index = ofSteps (steps ++ [(name, index)]) := by
  rw [entry_eq, ofSteps_append]

/-- A pointer leads along one way only. -/
theorem ofSteps_injective {first second : List (Text × Nat)} (h : ofSteps first = ofSteps second) :
    first = second := by
  have hsegments := ofSegments_injective h
  clear h
  induction first generalizing second with
  | nil =>
    cases second with
    | nil => rfl
    | cons step rest => cases hsegments
  | cons step rest ih =>
    cases second with
    | nil => cases hsegments
    | cons step' rest' =>
      obtain ⟨name, index⟩ := step
      obtain ⟨name', index'⟩ := step'
      simp only [List.flatMap_cons, List.cons_append, List.nil_append, List.cons.injEq] at hsegments
      obtain ⟨rfl, hindex, hrest⟩ := hsegments
      rw [Text.decimal_injective hindex, ih hrest]

end Pointer

end CondAttrs
