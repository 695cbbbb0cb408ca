import Klett.Lib.Platform

/-!
JSON values as the C++ library holds them, with its typed reads. A read of the wrong type throws.
-/

namespace Klett.Lib

/-- Whether a number is a `uint64_t`, an `int64_t` or a `double` is decided by how it is written. -/
inductive Json where
  | null
  | boolean (b : Bool)
  | unsigned (n : UInt64)
  | integer (z : Int64)
  | float (x : ℚ)
  | string (s : List UInt8)
  | array (items : List Json)
  | object (members : List (List UInt8 × Json))

namespace Json

inductive Error
  | parseError
  | typeError
  deriving DecidableEq

def get? (key : List UInt8) : Json → Option Json
  | .object members => (members.find? fun m => m.1 = key).map Prod.snd
  | _ => none

def IsNumber : Json → Prop
  | .unsigned _ | .integer _ | .float _ => True
  | _ => False

def IsString : Json → Prop
  | .string _ => True
  | _ => False

instance : DecidablePred IsNumber := fun j => by cases j <;> unfold IsNumber <;> infer_instance

instance : DecidablePred IsString := fun j => by cases j <;> unfold IsString <;> infer_instance

/-- The number that the text denotes, or the `double` nearest to it. -/
def number : Json → Option ℚ
  | .unsigned n => some n.toNat
  | .integer z => some z.toInt
  | .float x => some x
  | _ => none

/-- A read that takes every number, whatever its type. -/
structure ReadsNumbers {α : Type} (read : Json → Except Error α) : Prop where
  number {j : Json} : j.IsNumber → ∃ a, read j = .ok a
  other {j : Json} : ¬j.IsNumber → read j = .error .typeError

/-- The reads of the library as a number. An integer is cast to the type that is asked for, and so is a `double` in the
range of the type: what becomes of one beyond it is open. -/
structure Library (P : Platform) where
  double : Json → Except Error ℚ
  int64 : Json → Except Error ℤ
  uint64 : Json → Except Error ℕ
  double_numbers : ReadsNumbers double
  int64_numbers : ReadsNumbers int64
  uint64_numbers : ReadsNumbers uint64
  double_float (x : ℚ) : double (.float x) = .ok x
  double_unsigned (n : UInt64) : double (.unsigned n) = .ok (P.ofInt n.toNat)
  double_integer (z : Int64) : double (.integer z) = .ok (P.ofInt z.toInt)
  int64_unsigned (n : UInt64) : int64 (.unsigned n) = .ok n.toInt64.toInt
  int64_integer (z : Int64) : int64 (.integer z) = .ok z.toInt
  int64_float {x : ℚ} : -2 ^ 63 ≤ Platform.truncate x → Platform.truncate x < 2 ^ 63 →
    int64 (.float x) = .ok (Platform.truncate x)
  uint64_unsigned (n : UInt64) : uint64 (.unsigned n) = .ok n.toNat
  uint64_integer (z : Int64) : uint64 (.integer z) = .ok z.toUInt64.toNat
  uint64_float {x : ℚ} : 0 ≤ Platform.truncate x → Platform.truncate x < 2 ^ 64 →
    uint64 (.float x) = .ok (Platform.truncate x).toNat

/-- A read by one cast for each type of number. -/
def readNumber {α : Type} (ofUnsigned : UInt64 → α) (ofInteger : Int64 → α) (ofFloat : ℚ → α) : Json → Except Error α
  | .unsigned n => .ok (ofUnsigned n)
  | .integer z => .ok (ofInteger z)
  | .float x => .ok (ofFloat x)
  | _ => .error .typeError

theorem readNumber_readsNumbers {α : Type} (ofUnsigned : UInt64 → α) (ofInteger : Int64 → α) (ofFloat : ℚ → α) :
    ReadsNumbers (readNumber ofUnsigned ofInteger ofFloat) where
  number {j} h := by
    cases j with
    | unsigned | integer | float => exact ⟨_, rfl⟩
    | _ => exact absurd h id
  other {j} h := by
    cases j with
    | unsigned | integer | float => exact absurd trivial h
    | _ => rfl

/-- The library on x86-64. -/
def Library.cast (P : Platform) : Library P where
  double := readNumber (fun n => P.ofInt n.toNat) (fun z => P.ofInt z.toInt) id
  int64 := readNumber (fun n => n.toInt64.toInt) Int64.toInt (Platform.castInt 64)
  uint64 := readNumber UInt64.toNat (fun z => z.toUInt64.toNat) fun x => (Platform.truncate x % 2 ^ 64).toNat
  double_numbers := readNumber_readsNumbers _ _ _
  int64_numbers := readNumber_readsNumbers _ _ _
  uint64_numbers := readNumber_readsNumbers _ _ _
  double_float _ := rfl
  double_unsigned _ := rfl
  double_integer _ := rfl
  int64_unsigned _ := rfl
  int64_integer _ := rfl
  int64_float hlow hhigh := congrArg Except.ok (Platform.castInt_of_mem hlow hhigh)
  uint64_unsigned _ := rfl
  uint64_integer _ := rfl
  uint64_float {x} hlow hhigh := by
    have hmod : Platform.truncate x % 2 ^ 64 = Platform.truncate x := Int.emod_eq_of_lt hlow hhigh
    simp only [readNumber, hmod]

section Reads

variable {j : Json}

end Reads

end Json

end Klett.Lib
