import CondAttrs.Text.Basic

/-!
# Settings

What a user of the library may choose. The names are used as they are given: the
loader of settings files refuses names that are no identifiers, but nothing in
the library depends on that.
-/

namespace CondAttrs

/-- The names the expansion works with, and what it reports. -/
structure Settings where
  /-- The name of the directive that is expanded. -/
  directive : Text := "cfg_attrs"
  /-- The name of the native attribute that a directive becomes. -/
  native : Text := "cfg_attr"
  /-- The name of the invocation that carries an error into the output. -/
  errorName : Text := "compile_error"
  /-- Whether items that are passed through are reported. -/
  warnUnsupported : Bool := true
  /-- How the names of source files end. -/
  suffix : Text := ".rs"
deriving DecidableEq

end CondAttrs
