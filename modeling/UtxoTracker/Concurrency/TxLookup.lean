import UtxoTracker.Bulk.Seeded
import UtxoTracker.Lib.HexText
import UtxoTracker.Lib.Resumption
/-!
# Transaction lookups among the tracker's steps

`getTxBlock` reads the confirmed store four times and takes no lock, so the loop can commit between
any two of its reads.
-/

namespace UtxoTracker

open Resumption

/-! ### The lookup -/

/-- The tip that a lookup reports. -/
structure CommittedTip where
  committedHeight : Int
  committedHash : Option Hash
  deriving DecidableEq, Repr

structure TxBlock where
  blockHash : Hash
  blockHeight : Int
  sync : CommittedTip
  deriving DecidableEq, Repr

/-- A txid of `TXID_HEX_RE`, in either case. -/
def txidOfHex (text : String) : Option Hash :=
  if text.length = 64 then (HexText.read text.toList).map (BitVec.ofNat 256) else none

/-- The last two reads: the answer's height comes from the `B` record already read. -/
def reportTip (blockHash : Hash) (block : BlockRecord) :
    Resumption LevelUpStore (Option TxBlock) := do
  let committedHeight ← observe LevelUpStore.getLastBlockHeight
  let committedHash ← observe LevelUpStore.getLastBlockHash
  return some { blockHash, blockHeight := block.h, sync := { committedHeight, committedHash } }

/-- The read of the `B` record, and what follows when it is there. -/
def readTxBlock (blockHash : Hash) : Resumption LevelUpStore (Option TxBlock) :=
  .await fun σ =>
    match σ.getBlock blockHash with
    | none => .done none
    | some block => reportTip blockHash block

def getTxBlock (text : String) : Resumption LevelUpStore (Option TxBlock) :=
  match txidOfHex text with
  | none => .done none
  | some txid => .await fun σ =>
      match (σ.db[Key.txExact txid]?).bind decodeHash with
      | none => .done none
      | some blockHash => readTxBlock blockHash

/-! ### The lookup beside the loop -/

/-- One lookup and the tracker it reads. Beside them, the tracker at each read the lookup made, the
first read first. -/
structure LookupState where
  sys : Sys
  left : Resumption LevelUpStore (Option TxBlock)
  seen : List Sys

inductive LookupStep : LookupState → LookupState → Prop where
  | look {l : LookupState} {next : LevelUpStore → Resumption LevelUpStore (Option TxBlock)}
      (hleft : l.left = .await next) :
      LookupStep l { l with left := next l.sys.tracker.db, seen := l.seen ++ [l.sys] }
  | loop {l : LookupState} {s : Sys} (hstep : Step l.sys s) : LookupStep l { l with sys := s }

/-- The request arrives at any state of any run. -/
def LookupInit (text : String) (l : LookupState) : Prop :=
  Transition.Reachable FromStore Step l.sys ∧ l.left = getTxBlock text ∧ l.seen = []

/-- The states of all runs. -/
abbrev LookupReachable (text : String) (l : LookupState) : Prop :=
  Transition.Reachable (LookupInit text) LookupStep l

end UtxoTracker
