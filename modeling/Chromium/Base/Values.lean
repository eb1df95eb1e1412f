import Chromium.Lib.SortedMap
import Mathlib.Data.List.Lex

/-!
# Values

`base/values.h`: trees of nulls, booleans, numbers, strings, lists and dictionaries.  A dictionary is a
`std::map` of its keys, which `std::string` compares by their bytes: a list that is sorted by its keys, so two values
are equal to the code when they are the same.  Binary values are left out.
-/

namespace Chromium.Base

open Lib

/-- Bytes in the order of `memcmp`. -/
instance linearOrderUInt8 : LinearOrder UInt8 where
  le_refl := UInt8.le_refl
  le_trans _ _ _ := UInt8.le_trans
  lt_iff_le_not_ge _ _ := by rw [UInt8.not_le]; exact ⟨fun h => ⟨UInt8.le_of_lt h, h⟩, fun h => h.2⟩
  le_antisymm _ _ := UInt8.le_antisymm
  le_total := UInt8.le_total
  toDecidableLE := inferInstance

/-- `Value`, with `D` for the type `double`. -/
inductive Value (D : Type)
  | null
  | boolean (value : Bool)
  | integer (value : Int32)
  | double (value : D)
  | string (value : List UInt8)
  | list (list : List (Value D))
  | dictionary (dictionary : List (List UInt8 × Value D))

end Chromium.Base
