import Mathlib.Algebra.Order.Field.Rat
import Mathlib.Data.List.Basic

/-!
A YAML document as a tree, with the reads of the C++ library. A subscript of a scalar throws, and so does a conversion
without a default of a node that it does not fit.
-/

namespace Klett.Lib

inductive Yaml where
  | null
  | scalar (text : List UInt8)
  | sequence (items : List Yaml)
  | map (entries : List (Yaml × Yaml))

namespace Yaml

inductive Error
  | badSubscript
  | badConversion
  deriving DecidableEq

/-- The conversions of the library, `none` where a node does not fit. Whether a null node has a text varies. -/
structure Library where
  string : Yaml → Option (List UInt8)
  int32 : Yaml → Option ℤ
  int64 : Yaml → Option ℤ
  uint16 : Yaml → Option ℕ
  double : Yaml → Option ℚ
  bool : Yaml → Option Bool
  string_scalar (text : List UInt8) : string (.scalar text) = some text
  string_sequence (items : List Yaml) : string (.sequence items) = none
  string_map (entries : List (Yaml × Yaml)) : string (.map entries) = none

def isMap : Yaml → Bool
  | .map _ => true
  | _ => false

def isScalar : Yaml → Bool
  | .scalar _ => true
  | _ => false

def hasKey (key : List UInt8) : Yaml → Bool
  | .scalar text => text = key
  | _ => false

/-- The first entry of the key. A node that is no map has none. -/
def get? (key : List UInt8) : Yaml → Option Yaml
  | .map entries => (entries.find? fun e => e.1.hasKey key).map Prod.snd
  | _ => none

def subscript (key : List UInt8) (node : Yaml) : Except Error (Option Yaml) :=
  if node.isScalar then .error .badSubscript else .ok (node.get? key)

def section? (key : List UInt8) (node : Yaml) : Option Yaml := (node.get? key).filter isMap

end Yaml

end Klett.Lib
