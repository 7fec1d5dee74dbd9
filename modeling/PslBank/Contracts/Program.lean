import PslBank.Crypto.Hash
import PslBank.Ternary.Error

/-!
# Contracts

The trait of `agent_contracts/src/program.rs` and the errors of
`agent_contracts/src/error.rs`. A contract is the record of what the trait's methods
return, so `run` is a function of its input and nothing else.
-/
namespace PslBank.Contracts

open PslBank.Lib PslBank.Crypto PslBank.Ternary

set_option autoImplicit false

inductive ContractError where
  | inputShape (contract : String) (got expected : ℕ)
  | primitive (error : TernaryError)
  | precondition (reason : String)
  | overflow (contract : String)
  deriving DecidableEq, Repr

/-- The 64-byte identity of a contract, a type of its own. -/
structure ProgramHash where
  bytes : ByteArr 64
  deriving DecidableEq

structure TernaryProgram where
  name : String
  run : Bytes → Except ContractError Bytes
  programHashV2 : ProgramHash
  programHash : Hash

end PslBank.Contracts
