import CondAttrs.Readme.Document

/-!
# The rendered page

The page starts with two notices and a title of its own, which take the place of
the first lines of the source.
-/

namespace CondAttrs.Readme

/-- The notice at the head of the source, one text for each line. -/
def notice : List Text :=
  [ "<!-- cfg-attrs documentation source.",
    "   - Rendered into README.md by `cfg-attrs-readme`. -->" ]

/-- The notice that the page is not to be edited. -/
def note : List Text :=
  [ "<!-- This `README.md` file is automatically generated from `docs.md`, which uses `rustdoc`'s syntax",
    "   - for hidden lines in code examples.",
    "   -",
    "   - Edit `docs.md` and run `cfg-attrs-readme --input docs.md --out README.md` to update it. -->" ]

/-- The title of the page. -/
def title : Text := "# `#[cfg_attrs(...)]`"

/-- The lines in front of the rendered nodes. -/
def preamble : List Text :=
  notice ++ [[]] ++ note ++ [[], title]

/-- The page of a source: the notice and the line behind it are skipped, the rest is
rendered. -/
def page (source : Text) : Text :=
  let nodes := Node.readAll ((Text.lines source).drop (notice.length + 1))
  (preamble ++ nodes.flatMap Node.render).flatMap (· ++ ['\n'])

end CondAttrs.Readme
