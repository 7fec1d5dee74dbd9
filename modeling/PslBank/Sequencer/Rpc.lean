import PslBank.Sequencer.Issuers
import PslBank.Sequencer.Ledger

/-!
# The account query

`get_account` of `sequencer/src/rpc.rs` on the texts that requests and answers carry. The key of a
request that is no hexadecimal text of 32 bytes is the zero key. A record carries the key it is filed
under in every state that a node reaches, so an answer begins with the key it is about.
-/
namespace PslBank.Sequencer

open PslBank.Lib PslBank.Crypto

set_option autoImplicit false

/-- `copy_from_slice` of 32 bytes. -/
def copyKey (pkBytes : Bytes) (h : pkBytes.length = 32) : PublicKey := ⟨pkBytes, h⟩

/-- The key that `get_account` reads out of a request. -/
def requestedKey (pubkeyHex : Text) : PublicKey :=
  let pkBytes := (hexDecode pubkeyHex).getD []
  if h : pkBytes.length = 32 then copyKey pkBytes h else zeroHash

def getAccount (s : State) (pubkeyHex : Text) : Text :=
  hexEncode (s.account (requestedKey pubkeyHex)).bytes.toList

/-- The request spells a key. -/
def WellFormedKey (pubkeyHex : Text) : Prop := ∃ key : PublicKey, hexDecode pubkeyHex = some key.toList

theorem requestedKey_of_spelled {t : Text} {key : PublicKey} (h : hexDecode t = some key.toList) :
    requestedKey t = key := by
  have hlen : ((hexDecode t).getD []).length = 32 := by
    rw [h]
    exact key.toList_length
  rw [requestedKey, dif_pos hlen]
  apply Subtype.ext
  show (hexDecode t).getD [] = key.toList
  rw [h]
  rfl

theorem requestedKey_of_malformed {t : Text} (h : ¬ WellFormedKey t) : requestedKey t = zeroHash := by
  rw [requestedKey, dif_neg]
  intro hlen
  cases hbytes : hexDecode t with
  | none =>
    rw [hbytes] at hlen
    cases hlen
  | some bs =>
    rw [hbytes] at hlen
    exact h ⟨⟨bs, hlen⟩, hbytes⟩

/-- A well-formed request is its key in digits of either case. -/
theorem wellFormedKey_iff (t : Text) :
    WellFormedKey t ↔ t.map Char.toLower = hexEncode (requestedKey t).toList := by
  constructor
  · intro hyp
    obtain ⟨key, hkey⟩ := hyp
    rw [requestedKey_of_spelled hkey]
    exact hexDecode_eq_some_iff.mp hkey
  · intro h
    exact ⟨_, hexDecode_eq_some_iff.mpr h⟩

theorem bytes_eq_pubkey_append (a : Account) : a.bytes.toList = a.pubkey.toList ++ a.bytes.toList.drop 32 :=
  (List.take_append_drop 32 _).symm

/-- In a state that files records under their own keys an answer begins with the key it is about. -/
theorem getAccount_eq {s : State} (hs : s.WellKeyed) (t : Text) :
    getAccount s t = hexEncode (requestedKey t).toList ++
      hexEncode ((s.account (requestedKey t)).bytes.toList.drop 32) := by
  have hsplit := bytes_eq_pubkey_append (s.account (requestedKey t))
  rw [hs (requestedKey t)] at hsplit
  rw [← hexEncode_append, ← hsplit]
  rfl

section

variable [Blake3]

theorem wellKeyed_executeTxs {epoch : UInt32} {trace : TraceExecutor} {s : State} (hs : s.WellKeyed)
    (txs : List SignedTx) : (executeTxs epoch trace s txs).state.WellKeyed := by
  induction txs generalizing trace s with
  | nil => exact hs
  | cons tx txs ih =>
    cases hx : executeTx (trace 0) s tx epoch with
    | error e =>
      rw [executeTxs, hx]
      exact hs
    | ok x =>
      obtain ⟨w, -, -, heq⟩ := executeTx_ok hx
      have hafter : x.after = writeBack s x.res := congrArg Exec.after heq
      rw [executeTxs, hx]
      exact ih (hafter ▸ hs.writeBack x.res)

variable [Ed25519] [SerdeJson]

theorem wellKeyed_ofNodeCalls (trace : TraceExecutor) (cfg : Config) (calls : List NodeCall) :
    (Run.ofNodeCalls trace cfg calls).node.state.WellKeyed := by
  induction calls using List.reverseRecOn with
  | nil => exact State.wellKeyed_new
  | append_singleton calls call ih =>
    rw [Run.ofNodeCalls_concat]
    cases call with
    | registerIssuer issuer => exact ih
    | submitTx tx =>
      rw [Run.nodeStep_submitTx, Run.state_ingress]
      exact ih
    | produceBlock e t =>
      show ((Run.ofNodeCalls trace cfg calls).node.produceBlock e t).node.state.WellKeyed
      rw [((Run.ofNodeCalls trace cfg calls).node.produceBlock_effect e t).2.1]
      exact wellKeyed_executeTxs ih _

/-- Whatever a node has done with whatever executor, and whatever the request: the answer is the record of one key, which it
begins with. It begins with the request, in lower case, exactly when the request spells a key; any other
request is answered for the zero key. Two requests are answered alike exactly when they are for one key. -/
theorem rpc_answers_echo (trace : TraceExecutor) (cfg : Config) (calls : List NodeCall) (t : Text) :
    let s := (Run.ofNodeCalls trace cfg calls).node.state
    hexDecode (getAccount s t) = some (s.account (requestedKey t)).bytes.toList ∧
      (getAccount s t).take 64 = hexEncode (requestedKey t).toList ∧
      ((getAccount s t).take 64 = t.map Char.toLower ↔ WellFormedKey t) ∧
      (¬ WellFormedKey t → requestedKey t = zeroHash) ∧
      ∀ u, getAccount s t = getAccount s u ↔ requestedKey t = requestedKey u := by
  intro s
  have hs : s.WellKeyed := wellKeyed_ofNodeCalls trace cfg calls
  have hfront : ∀ v, (getAccount s v).take 64 = hexEncode (requestedKey v).toList := by
    intro v
    rw [getAccount_eq hs v]
    exact List.take_left' (by rw [length_hexEncode, (requestedKey v).toList_length])
  refine ⟨hexDecode_hexEncode _, hfront t, ?_, requestedKey_of_malformed, fun u => ?_⟩
  · rw [hfront t, wellFormedKey_iff, eq_comm]
  · constructor
    · intro h
      have hkeys := hfront t
      rw [h, hfront u] at hkeys
      exact Subtype.ext (hexEncode_injective hkeys).symm
    · intro h
      rw [getAccount, getAccount, h]

end

end PslBank.Sequencer
