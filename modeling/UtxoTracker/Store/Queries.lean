import UtxoTracker.Lib.HexText
import UtxoTracker.Store.LevelUpStore
/-!
# Address queries on a store

The readers behind the address API: the outputs of a script, a page at a time or all at once, and the
point probes. They read the database and never the open batch.
-/

namespace UtxoTracker

open KeyedStore

/-- What a query may throw. -/
inductive QueryError where
  | addressTooLarge (maxOutputs : Nat)
  | invalidCursor (cursor : String)
  deriving DecidableEq, Repr

def QueryError.code : QueryError → String
  | addressTooLarge _ => "ADDRESS_TOO_LARGE"
  | invalidCursor _ => "INVALID_CURSOR"

def QueryError.message : QueryError → String
  | addressTooLarge maxOutputs =>
      "address has more than " ++ toString maxOutputs ++
        " outputs; page the result with ?limit=&after="
  | invalidCursor cursor =>
      "invalid pagination cursor " ++ jsonString cursor ++ " (expected \"<txid>:<vout>\")"

/-! ### Cursors -/

/-- `txid + ':' + vout`, the txid in 64 lower-case hexadecimal digits. -/
def outputCursor (txid : Hash) (vout : Nat) : String :=
  String.ofList (HexText.write 64 txid.toNat ++ ':' :: Nat.toDigits 10 vout)

/-- The txid before the first colon and the vout after it; nothing on a malformed cursor. -/
def parseOutputCursor (cursor : String) : Option (Hash × Nat) :=
  let txidHex := cursor.toList.takeWhile (· ≠ ':')
  match cursor.toList.dropWhile (· ≠ ':') with
  | [] => none
  | _ :: voutStr =>
      if txidHex.length ≠ 64 then none
      else if voutStr = [] ∨ ¬ voutStr.all Char.isDigit then none
      else
        let vout := Nat.ofDigitChars 10 voutStr 0
        if 0xFFFFFFFF < vout then none
        else (HexText.read txidHex).map fun txid => (BitVec.ofNat 256 txid, vout)

/-- A cursor reads back as the outpoint it was written for. -/
theorem parseOutputCursor_outputCursor {txid : Hash} {vout : Nat} (hfits : vout ≤ 0xFFFFFFFF) :
    parseOutputCursor (outputCursor txid vout) = some (txid, vout) := by
  have hhex : ∀ c ∈ HexText.write 64 txid.toNat, (decide (c ≠ ':')) = true := by
    intro c hmem
    rw [decide_eq_true_iff]
    rintro rfl
    have hdigit := HexText.isHexDigit_of_mem_write hmem
    simp [HexText.digitValue] at hdigit
  have hdigits : (Nat.toDigits 10 vout).all Char.isDigit = true :=
    List.all_eq_true.mpr fun c hmem => Nat.isDigit_of_mem_toDigits (by decide) (by decide) hmem
  have htxid : txid.toNat < 16 ^ 64 := txid.isLt
  unfold parseOutputCursor outputCursor
  simp only [String.toList_ofList]
  rw [List.dropWhile_append_of_pos hhex, List.takeWhile_append_of_pos hhex]
  have hcolon : (decide ((':' : Char) ≠ ':')) = false := by decide
  simp [HexText.read_write htxid, Nat.toDigits_ne_nil, hdigits, Nat.ofDigitChars_ten_toDigits,
    not_lt.mpr hfits]

/-! ### The outputs of a script -/

/-- One row of `getOutputsScriptPubKey`. -/
structure OutputRow where
  /-- The txid of the key. -/
  txid : Hash
  /-- The txid of the value; a zero one reads as none. -/
  fullTxid : Option Hash
  vout : Nat
  value : Nat
  height : Int
  coinbase : Bool
  deriving DecidableEq, Repr

/-- `requireFullTxid`, which cannot throw here: both txids are whole ones. -/
def OutputRow.requireFullTxid (row : OutputRow) : Hash := row.fullTxid.getD row.txid

def OutputRow.outPoint (row : OutputRow) : OutPoint := ⟨row.requireFullTxid, row.vout⟩

def OutputRow.ofRecord (txid : Hash) (vout : Nat) (record : OutputRecord) : OutputRow :=
  { txid
    fullTxid := if record.t = 0 then none else some record.t
    vout
    value := record.v
    height := record.h
    coinbase := record.cb }

/-- An `O` entry of `script`, strictly after the cursor when there is one. -/
def outputRowAccept (script : Hash) (after : Option (Hash × Nat)) (key : Key) (value : Value) :
    Option OutputRow :=
  match key with
  | .output s txid vout =>
      if s = script ∧ ∀ cursor ∈ after, compare (Key.output script cursor.1 cursor.2) key = .lt then
        (decodeOutput value).map (OutputRow.ofRecord txid vout)
      else none
  | _ => none

namespace LevelUpStore

variable (σ : LevelUpStore)

/-- The outputs of a script in key order. A page stops at its limit; an unbounded read refuses more
than `maxOutputs` rows. -/
def getOutputsScriptPubKey (script : Hash) (limit : Option Nat) (after : Option String)
    (maxOutputs : Option Nat) : Except QueryError (List OutputRow) := do
  let bound ←
    match after with
    | none => .ok none
    | some cursor =>
        match parseOutputCursor cursor with
        | none => .error (.invalidCursor cursor)
        | some parsed => .ok (some parsed)
  let rows := scan σ.db (outputRowAccept script bound)
  match limit.filter (0 < ·), maxOutputs with
  | some pageLimit, _ => .ok (rows.take pageLimit)
  | none, some maxOutputs =>
      if maxOutputs < rows.length then .error (.addressTooLarge maxOutputs) else .ok rows
  | none, none => .ok rows

/-! ### Point probes -/

/-- The spender of an outpoint, in the mempool store. -/
def getInput (txid : Hash) (outputIndex : Nat) : Option Value := σ.db[Key.input txid outputIndex]?

/-- Does the store hold the outpoint unspent? -/
def hasOutputForTx (txid : Hash) (outputIndex : Nat) : Bool :=
  (σ.db[Key.outHint txid outputIndex]?).isSome

/-- The height a script was first seen at. -/
def getOutputScriptBlock (script : Hash) : Option Int :=
  match σ.db[Key.scriptBlk script]? with
  | some (.scriptBlk height) => some height
  | _ => none

end LevelUpStore

end UtxoTracker
