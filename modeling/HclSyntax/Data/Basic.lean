import HclSyntax.Text.Basic

/-!
# `HclSyntax.Data.Basic`: plain data

`Data` is what a tree is listed as: texts, numbers, lists and records. The fields of a record keep
their order. `HclSyntax.Data.Json` and `HclSyntax.Data.Yaml` write it down.
-/

set_option autoImplicit false

namespace HclSyntax

/-- A value of plain data. -/
inductive Data where
  | text (content : Text)
  | number (n : Nat)
  | list (items : List Data)
  | record (fields : List (Text × Data))

end HclSyntax
