import PslBank.Lib.Bytes

/-!
# Errors of the ternary machine

`ternary_vm/src/error.rs`. A `&'static str` of the source is a `String`, `usize` and
`i64` fields are numbers.
-/
namespace PslBank.Ternary

set_option autoImplicit false

inductive TernaryError where
  | overflow (layer row : ℕ)
  | inputShape (got expected : ℕ)
  | inputRange (primitive : String) (value max : ℤ)
  | outputDecode (reason : String)
  | weightsHashMismatch (expected got : String)
  | layerShape (layer got expected : ℕ)
  | emptyArgmax
  deriving DecidableEq, Repr

end PslBank.Ternary
