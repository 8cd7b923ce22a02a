import CondAttrs.Proofs.Reading.Point

/-!
# Where annotations stand

The annotations of an attachment point are a stretch of tokens, either among the tokens of
the declaration or inside a group of them. A `Place` says where: by the groups on the way
to it, its first token and its length. With a place the stretch can be taken out of a token
list and exchanged for another one.

`Declaration.placed` lists the places of the annotations of a declaration, each with its
point. They are computed from the lengths of its parts.

## Main definitions

* `Place`, `Place.segment`, `Place.exchange`: a stretch of tokens.
* `Place.Holds`: what stands at a place, and what the tokens become when it is exchanged.
* `Declaration.placed`: the places of annotations.

## Main statements

* `Place.Holds.here`, `Place.Holds.frame`, `Place.Holds.inside`: the ways to a place.
* `Declaration.snd_placed`: the points at the places are the points of the declaration.
-/

namespace CondAttrs

/-- A stretch of tokens in a token list or inside its groups. -/
structure Place where
  /-- The groups that the stretch is in, by their indices, the outermost first. -/
  path : List Nat
  /-- The index of its first token. -/
  start : Nat
  /-- The number of its tokens. -/
  count : Nat
deriving DecidableEq

/-- A group with other tokens between its brackets. -/
def Token.mapChildren (f : List Token → List Token) : Token → Token
  | .atom leading pos a => .atom leading pos a
  | .group leading pos d children closeLeading => .group leading pos d (f children) closeLeading

namespace Place

/-- The tokens from `start` on, inside the groups of a path. -/
def segmentAt (start count : Nat) : List Nat → List Token → List Token
  | [], tokens => (tokens.drop start).take count
  | index :: path, tokens => segmentAt start count path (tokens[index]?.elim [] Token.children)

/-- The token list with other tokens from `start` on, inside the groups of a path. -/
def exchangeAt (start count : Nat) (new : List Token) : List Nat → List Token → List Token
  | [], tokens => tokens.take start ++ new ++ tokens.drop (start + count)
  | index :: path, tokens =>
    tokens.modify index (Token.mapChildren (exchangeAt start count new path))

/-- The tokens at a place. -/
def segment (place : Place) (tokens : List Token) : List Token :=
  segmentAt place.start place.count place.path tokens

/-- The token list with other tokens at a place. -/
def exchange (place : Place) (new tokens : List Token) : List Token :=
  exchangeAt place.start place.count new place.path tokens

/-- The place behind `n` further tokens. -/
def shift (n : Nat) : Place → Place
  | ⟨[], start, count⟩ => ⟨[], n + start, count⟩
  | ⟨index :: path, start, count⟩ => ⟨(n + index) :: path, start, count⟩

/-- The place inside a group. -/
def inside (place : Place) : Place :=
  { place with path := 0 :: place.path }

theorem shift_shift (n m : Nat) (place : Place) : (place.shift m).shift n = place.shift (n + m) := by
  obtain ⟨path, start, count⟩ := place
  cases path <;> simp [shift, Nat.add_assoc]

theorem shift_zero (place : Place) : place.shift 0 = place := by
  obtain ⟨path, start, count⟩ := place
  cases path <;> simp [shift]

/-- Wherever the tokens stand, at the place stands the given stretch, and they become
`put new` when it is exchanged for `new`. -/
def Holds (place : Place) (tokens stretch : List Token) (put : List Token → List Token) : Prop :=
  ∀ before after : List Token,
    (place.shift before.length).segment (before ++ tokens ++ after) = stretch ∧
      ∀ new, (place.shift before.length).exchange new (before ++ tokens ++ after) =
        before ++ put new ++ after

namespace Holds

variable {place : Place} {tokens stretch : List Token} {put : List Token → List Token}

theorem segment (h : Holds place tokens stretch put) : place.segment tokens = stretch := by
  simpa [shift_zero] using (h [] []).1

theorem exchange (h : Holds place tokens stretch put) (new : List Token) :
    place.exchange new tokens = put new := by
  simpa [shift_zero] using (h [] []).2 new

/-- The first tokens of a list. -/
theorem here (stretch rest : List Token) :
    Holds ⟨[], 0, stretch.length⟩ (stretch ++ rest) stretch fun new => new ++ rest := by
  intro before after
  constructor
  · simp [Place.segment, segmentAt, shift]
  · intro new
    simp [Place.exchange, exchangeAt, shift]

/-- A place with tokens around it. -/
theorem frame (h : Holds place tokens stretch put) (first last : List Token) :
    Holds (place.shift first.length) (first ++ tokens ++ last) stretch fun new =>
      first ++ put new ++ last := by
  intro before after
  obtain ⟨hsegment, hexchange⟩ := h (before ++ first) (last ++ after)
  rw [shift_shift, ← List.length_append]
  constructor
  · simpa using hsegment
  · intro new
    simpa using hexchange new

/-- A place between brackets. -/
theorem inside (h : Holds place tokens stretch put) (leading : Text) (pos : Position)
    (d : Delimiter) (closeLeading : Text) :
    Holds place.inside [.group leading pos d tokens closeLeading] stretch fun new =>
      [.group leading pos d (put new) closeLeading] := by
  intro before after
  constructor
  · simpa [Place.segment, segmentAt, Place.inside, shift, Token.children] using h.segment
  · intro new
    have hnew := h.exchange new
    simp only [Place.exchange] at hnew
    simp [Place.exchange, exchangeAt, Place.inside, shift, List.modify_eq_take_drop,
      Token.mapChildren, hnew]

end Holds

end Place

/-! ## The places of annotations -/

/-- The annotations of a point, placed at the start of a token list. -/
def Point.atStart (p : Point) : Place × Point :=
  (⟨[], 0, (p.attachments.flatMap Attachment.tokens).length⟩, p)

/-- The same points at other places. -/
def mapPlaced (f : Place → Place) (placed : List (Place × Point)) : List (Place × Point) :=
  placed.map fun x => (f x.1, x.2)

namespace Members

variable {α : Type} (places : α → List (Place × Point)) (of : α → List Token)

/-- The places in what follows one another, from an index on. -/
def placedFrom (start : Nat) : List α → List (Place × Point)
  | [] => []
  | x :: xs => mapPlaced (Place.shift start) (places x) ++ placedFrom (start + (of x).length) xs

/-- The places in a group of members. -/
def placed (m : Members α) : List (Place × Point) :=
  mapPlaced Place.inside (placedFrom places of 0 m.members)

end Members

/-- The place of the annotations of a member. -/
def Member.placed (m : Member) : List (Place × Point) :=
  [m.point.atStart]

/-- The places in a variant. -/
def Variant.placed (v : Variant) : List (Place × Point) :=
  v.point.atStart :: mapPlaced
    (Place.shift (v.point.attachments.flatMap Attachment.tokens ++ v.head).length)
    (v.fields.elim [] (Members.placed Member.placed (Member.fill Attachment.tokens)))

/-- The places in the members of a declaration. -/
def Roster.placed : Roster → List (Place × Point)
  | .plain members => members.placed Member.placed (Member.fill Attachment.tokens)
  | .variants members => members.placed Variant.placed (Variant.fill Attachment.tokens)

/-- The places of the annotations of a declaration, each with its point. -/
def Declaration.placed (d : Declaration) : List (Place × Point) :=
  d.point.atStart :: mapPlaced
    (Place.shift (d.attachments.flatMap Attachment.tokens ++ d.visibility ++ d.shape.before).length)
    (d.shape.roster.elim [] Roster.placed)

theorem snd_mapPlaced (f : Place → Place) (placed : List (Place × Point)) :
    (mapPlaced f placed).map Prod.snd = placed.map Prod.snd := by
  rw [mapPlaced, List.map_map]
  rfl

theorem Members.snd_placedFrom {α : Type} (places : α → List (Place × Point))
    (of : α → List Token) (start : Nat) (xs : List α) :
    (placedFrom places of start xs).map Prod.snd = (xs.flatMap places).map Prod.snd := by
  induction xs generalizing start with
  | nil => rfl
  | cons x xs ih =>
    rw [placedFrom, List.map_append, snd_mapPlaced, ih, List.flatMap_cons, List.map_append]

theorem Members.snd_placed {α : Type} {places : α → List (Place × Point)} {of : α → List Token}
    {points : α → List Point} (h : ∀ x, (places x).map Prod.snd = points x) (m : Members α) :
    (m.placed places of).map Prod.snd = m.members.flatMap points := by
  have hfrom := snd_placedFrom places of 0 m.members
  rw [List.map_flatMap] at hfrom
  simp only [h] at hfrom
  rw [placed, snd_mapPlaced, hfrom]

theorem Member.snd_placed (m : Member) : m.placed.map Prod.snd = [m.point] := rfl

theorem Variant.snd_placed (v : Variant) : v.placed.map Prod.snd = v.points := by
  rw [placed, List.map_cons, snd_mapPlaced, points]
  cases v.fields with
  | none => rfl
  | some fields =>
    refine congrArg (v.point :: ·) ?_
    rw [Option.elim_some, Members.snd_placed Member.snd_placed, ← List.map_eq_flatMap]
    rfl

theorem Roster.snd_placed (r : Roster) : r.placed.map Prod.snd = r.points := by
  cases r with
  | plain members =>
    rw [placed, Members.snd_placed Member.snd_placed, points, List.map_eq_flatMap]
  | variants members => exact Members.snd_placed Variant.snd_placed members

/-- The points at the places are the points of the declaration. -/
theorem Declaration.snd_placed (d : Declaration) :
    d.placed.map Prod.snd = (Item.declared d).points := by
  rw [placed, List.map_cons, snd_mapPlaced, Item.points_declared, Shape.points]
  cases d.shape.roster with
  | none => rfl
  | some r => exact congrArg (d.point :: ·) r.snd_placed

theorem exists_of_append_eq {α : Type} {l l' first last : List α} {x : α}
    (h : l ++ l' = first ++ x :: last) :
    (∃ more, l = first ++ x :: more ∧ last = more ++ l') ∨
      ∃ more, l' = more ++ x :: last ∧ first = l ++ more := by
  rcases List.append_eq_append_iff.1 h with ⟨more, rfl, rfl⟩ | ⟨more, rfl, hmore⟩
  · exact .inr ⟨more, rfl, rfl⟩
  · cases more with
    | nil => exact .inr ⟨[], hmore.symm, by simp⟩
    | cons y more =>
      obtain ⟨rfl, rfl⟩ := List.cons.inj hmore
      exact .inl ⟨more, rfl, rfl⟩

theorem exists_of_mapPlaced {f : Place → Place} {placed first last : List (Place × Point)}
    {place : Place} {p : Point} (h : mapPlaced f placed = first ++ (place, p) :: last) :
    ∃ first' place' last', placed = first' ++ (place', p) :: last' ∧ place = f place' ∧
      first.map Prod.snd = first'.map Prod.snd ∧ last.map Prod.snd = last'.map Prod.snd := by
  obtain ⟨first', rest, rfl, rfl, hrest⟩ := List.map_eq_append_iff.1 h
  obtain ⟨⟨place', p'⟩, last', rfl, heq, rfl⟩ := List.map_eq_cons_iff.1 hrest
  obtain ⟨rfl, rfl⟩ := Prod.mk.inj heq
  exact ⟨first', place', last', rfl, rfl, snd_mapPlaced f first', snd_mapPlaced f last'⟩

/-- A place in what follows one another is a place in one of the parts. -/
theorem Members.exists_of_placedFrom {α : Type} {places : α → List (Place × Point)}
    {of : α → List Token} {start : Nat} {xs : List α} {first last : List (Place × Point)}
    {place : Place} {p : Point} (h : placedFrom places of start xs = first ++ (place, p) :: last) :
    ∃ before x after first' place' last', xs = before ++ x :: after ∧
      places x = first' ++ (place', p) :: last' ∧
      place = place'.shift (start + (before.flatMap of).length) ∧
      first.map Prod.snd = (before.flatMap places ++ first').map Prod.snd ∧
      last.map Prod.snd = (last' ++ after.flatMap places).map Prod.snd := by
  induction xs generalizing start first with
  | nil => simp [placedFrom] at h
  | cons x xs ih =>
    rw [placedFrom] at h
    rcases exists_of_append_eq h with ⟨more, hx, rfl⟩ | ⟨more, hxs, rfl⟩
    · obtain ⟨first', place', last', hplaces, rfl, hfirst, hlast⟩ := exists_of_mapPlaced hx
      refine ⟨[], x, xs, first', place', last', rfl, hplaces, by simp, by simpa using hfirst, ?_⟩
      rw [List.map_append, List.map_append, hlast, snd_placedFrom]
    · obtain ⟨before, y, after, first', place', last', rfl, hy, rfl, hfirst, hlast⟩ := ih hxs
      refine ⟨x :: before, y, after, first', place', last', rfl, hy, ?_, ?_, hlast⟩
      · rw [List.flatMap_cons, List.length_append, Nat.add_assoc]
      · rw [List.map_append, snd_mapPlaced, hfirst, ← List.map_append, List.flatMap_cons,
          List.append_assoc]

end CondAttrs
