import CondAttrs.Files.Host

/-!
# File name patterns

A pattern names files by a list of steps, one for each part between slashes. In a
step `*` stands for any characters, `?` for one character, and brackets for one
character of a set; a set may hold ranges and may be negated by `!`. The step `**`
stands for the folders below, at any depth. A step without such marks is a name.

## Main definitions

* `Glob.ofText?`: the steps of a pattern.
* `Glob.accepts`: whether a name fits a step.
* `Glob.select`: the paths that a pattern leads to.
-/

namespace CondAttrs.Glob

/-! ## One step -/

/-- A mark in a step. -/
inductive Mark where
  /-- Any characters. -/
  | any
  /-- One character. -/
  | one
  /-- One character in, or if negated outside, the given ranges. -/
  | set (negated : Bool) (ranges : List (Char × Char))
  /-- The character itself. -/
  | char (c : Char)
deriving DecidableEq

/-- A mark of negation at the start of a set, and the rest. -/
def spanNegation : Text → Text × Text
  | '!' :: rest => (['!'], rest)
  | rest => ([], rest)

/-- A closing bracket at the very start of a set, which is part of it, and the
rest. -/
def spanFirst : Text → Text × Text
  | ']' :: rest => ([']'], rest)
  | rest => ([], rest)

/-- What stands between an opening bracket and its closing one, and what follows. -/
def spanSet (t : Text) : Option (Text × Text) :=
  let (negation, body) := spanNegation t
  let (first, more) := spanFirst body
  match more.dropWhile (· ≠ ']') with
  | [] => none
  | _ :: rest => some (negation ++ first ++ more.takeWhile (· ≠ ']'), rest)

theorem spanSet_length_lt {t inside rest : Text}
    (h : spanSet t = some (inside, rest)) : rest.length < t.length := by
  have hn : (spanNegation t).2.length ≤ t.length := by
    unfold spanNegation
    split <;> simp
  have hf : (spanFirst (spanNegation t).2).2.length ≤ (spanNegation t).2.length := by
    unfold spanFirst
    split <;> simp_all
  have hd := (List.dropWhile_sublist (p := fun c => decide (c ≠ ']'))
    (l := (spanFirst (spanNegation t).2).2)).length_le
  simp only [spanSet] at h
  split at h
  · cases h
  · rename_i hr
    simp only [Option.some.injEq, Prod.mk.injEq] at h
    rw [hr, List.length_cons, h.2] at hd
    omega

/-- The parts of a set between the hyphens that make ranges. The first `skip`
characters of a part are no such hyphens, and neither is one at the very end;
`part` holds the characters of the part so far. -/
def splitRanges (skip : Nat) (part : Text) : Text → List Text
  | [] => [part]
  | c :: rest =>
    if skip = 0 && c = '-' then
      if rest.isEmpty then [part ++ [c]] else part :: splitRanges 2 [] rest
    else splitRanges (skip - 1) (part ++ [c]) rest

/-- The parts of a set without the ranges whose ends are the wrong way round. Such a
range goes with both of its ends, and the parts around it become one. -/
def dropReversed : List Text → List Text
  | [] => []
  | part :: rest =>
    match dropReversed rest with
    | [] => [part]
    | next :: others =>
      match part.getLast?, next.head? with
      | some low, some high =>
        if high < low then (part.dropLast ++ next.drop 1) :: others else part :: next :: others
      | _, _ => part :: next :: others

/-- The ranges of a set with the given first part and further parts. A character
outside all ranges is a range of its own; a hyphen with nothing in front stands
for itself. -/
def rangesOf (part : Text) : List Text → List (Char × Char)
  | [] => part.map fun c => (c, c)
  | next :: others =>
    match part.getLast?, next with
    | some low, high :: tail =>
      (part.dropLast.map fun c => (c, c)) ++ (low, high) :: rangesOf tail others
    | _, _ => (part.map fun c => (c, c)) ++ ('-', '-') :: rangesOf next others

/-- The set that stands between two brackets. Reversed ranges are dropped before the
set is judged: it is negated if what is left starts with a mark of negation. -/
def setOf (inside : Text) : Mark :=
  match dropReversed (splitRanges (if inside.head? = some '!' then 2 else 1) [] inside) with
  | ('!' :: first) :: others => .set true (rangesOf first others)
  | first :: others => .set false (rangesOf first others)
  | [] => .set false []

/-- The marks of a step. -/
def marks (t : Text) : List Mark :=
  match t with
  | [] => []
  | '*' :: rest => .any :: marks rest
  | '?' :: rest => .one :: marks rest
  | '[' :: rest =>
    match _h : spanSet rest with
    | some (inside, after) => setOf inside :: marks after
    | none => .char '[' :: marks rest
  | c :: rest => .char c :: marks rest
termination_by t.length
decreasing_by
  · simp
  · simp
  · have := spanSet_length_lt _h
    simp only [List.length_cons]
    omega
  · simp
  · simp

/-- Whether a mark other than `any` stands for a character. -/
def Mark.stands : Mark → Char → Bool
  | any, _ => true
  | one, _ => true
  | set negated ranges, c => ranges.any (fun (low, high) => low ≤ c && c ≤ high) != negated
  | char d, c => c = d

/-- Whether a whole name fits a list of marks. -/
def accepts : List Mark → Text → Bool
  | [], [] => true
  | [], _ :: _ => false
  | .any :: marks, [] => accepts marks []
  | .any :: marks, c :: rest => accepts marks (c :: rest) || accepts (.any :: marks) rest
  | _ :: _, [] => false
  | mark :: marks, c :: rest => mark.stands c && accepts marks rest
termination_by marks name => marks.length + name.length

/-! ## Patterns -/

/-- One part of a pattern. -/
inductive Step where
  /-- Every folder below, and the folder itself. -/
  | deep
  /-- The names that fit. -/
  | matching (marks : List Mark)
  /-- One name. -/
  | exactly (name : Text)
  /-- The folder itself, for a slash at the end. -/
  | here
deriving DecidableEq

/-- Whether two stars stand side by side. -/
def hasDoubleStar : Text → Bool
  | '*' :: '*' :: _ => true
  | _ :: rest => hasDoubleStar rest
  | [] => false

/-- The step that a part is. Two stars are a part of their own or nothing. -/
def Step.ofText? (part : Text) : Option Step :=
  if part = "**".toList then some .deep
  else if hasDoubleStar part then none
  else if part.any fun c => c = '*' || c = '?' || c = '[' then some (.matching (marks part))
  else some (.exactly part)

/-- The steps of a pattern. -/
def ofText? (pattern : Text) : Option (List Step) := do
  let steps ← (Path.ofText pattern).names.mapM Step.ofText?
  return if pattern.getLast? = some '/' then steps ++ [.here] else steps

variable {m : Type → Type} [Monad m] [Host m]

/-- Whether a path leads to a folder. -/
def isFolder (path : Path) : ExceptT FileError m Bool := do
  return (← ExceptT.mk (Host.kind? path)) = some .folder

/-- The paths that the steps lead to from a folder. All but the last step lead
through folders. -/
def select : List Step → Path → ExceptT FileError m (List Path)
  | [], path => return [path]
  | .here :: _, path => return [path]
  | .deep :: rest, path => do
    let folders ← (Host.folders path : m _)
    return (← folders.mapM fun folder => select rest folder).flatten.eraseDups
  | .exactly name :: rest, path => do
    match ← ExceptT.mk (Host.kind? (path.child name)) with
    | none => return []
    | some kind =>
      if rest.isEmpty || kind = .folder then select rest (path.child name) else return []
  | .matching marks :: rest, path => do
    let names ← (Host.names path : m _)
    let found ← (names.filter (accepts marks)).mapM fun name => do
      if rest.isEmpty then select rest (path.child name)
      else if ← isFolder (path.child name) then select rest (path.child name)
      else return []
    return found.flatten

end CondAttrs.Glob
