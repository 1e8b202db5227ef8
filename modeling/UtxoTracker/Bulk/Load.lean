import UtxoTracker.Bulk.Derive
import UtxoTracker.Store.Layout
/-!
# Loading the store

The loader writes the prefix files in batches and the tip, the watermark and the layout stamp in the
last one. It starts from a store that holds at most the stamp.
-/

namespace UtxoTracker.Bulk

open AntiJoin Chunks KeyedStore

/-- `holdsNothingButCurrentStamp` -/
def holdsNothingButCurrentStamp (db : Db) : Bool :=
  match db.toList with
  | [] => true
  | [(key, value)] => key = .layoutVersion ∧ value = .text "2"
  | _ => false

/-- `transformOValue`: the coinbase byte becomes the optional one of the live encoding. -/
def loadOutputRow (row : OutputRow) : Row :=
  (.output row.scriptPubKey row.txid row.vout,
    .output ⟨row.value, row.height, row.txid, row.coinbase⟩)

/-- `dropTHeight` -/
def loadTxRow (row : TxRow) : Row := (.tx row.txid, .txRecord row.blockHash row.txid)

/-- The prefix files in load order. -/
def prefixFiles (keys : DerivedKeys) : List (List Row) :=
  match keys.txIndexFiles with
  | some files =>
      [keys.B, keys.H, keys.N, keys.O.map loadOutputRow, keys.S, files.T.map loadTxRow, keys.W,
        files.X, files.Y, keys.Z]
  | none => [keys.B, keys.H, keys.N, keys.O.map loadOutputRow, keys.S, keys.W, keys.Z]

/-- `writeFinalMarkers` -/
def finalMarkers (keys : DerivedKeys) : List Row :=
  [(.lastBlockHeight, .hexText keys.L.lastBlockHeight),
    (.lastBlockHash, .hashText keys.L.lastBlockHash), (.layoutVersion, .text "2")] ++
  if 0 < keys.N.length then [(.undoWatermark, .decimalText keys.N.length)] else []

/-- Every `db.batch` of a load, in order. -/
def loadBatches (batchSize : Nat) (keys : DerivedKeys) : List (List Row) :=
  ((prefixFiles keys).flatMap fun rows => chunks (if batchSize = 0 then 10000 else batchSize) rows)
    ++ [finalMarkers keys]

/-- One atomic batch of puts. -/
def putBatch (db : Db) (batch : List Row) : Db :=
  batch.foldl (fun db row => db.insert row.1 row.2) db

inductive LoadError where
  | notEmpty
  deriving DecidableEq, Repr

/-- `loadKeys` -/
def loadKeys (batchSize : Nat) (keys : DerivedKeys) (db : Db) : Except LoadError Db :=
  if holdsNothingButCurrentStamp db then .ok ((loadBatches batchSize keys).foldl putBatch db)
  else .error .notEmpty

/-! ### The pipeline -/

structure BulkOptions extends DeriveOptions where
  network : Network
  batchSize : Nat
  deriving DecidableEq, Repr

inductive BulkError where
  | concat (error : ConcatError)
  | orphanSpends (count : Nat)
  | derive (error : DeriveError)
  | load (error : LoadError)
  deriving DecidableEq, Repr

/-- `phaseMerge` on the parsed files of a run from height 0. -/
def phaseMerge (opts : BulkOptions) (outputFiles : List (DatFile OutputsRecord))
    (spendFiles : List (DatFile SpendsRecord)) (metaFiles : List (DatFile MetaRecord)) :
    Except BulkError DerivedKeys := do
  let allOutputs ← (concatFilesWithHeader "all-outputs.dat" outputFiles).mapError .concat
  let allSpends ← (concatFilesWithHeader "all-spends.dat" spendFiles).mapError .concat
  let allMeta ← (concatFilesWithHeader "all-meta.dat" metaFiles).mapError .concat
  let sortedOutputs :=
    sortBy opts.ramBudgetBytes outputsRecordSize OutputsRecord.key allOutputs.body
  let sortedSpends := sortBy opts.ramBudgetBytes spendsRecordSize SpendsRecord.key allSpends.body
  let joined := joinRecords OutputsRecord.key SpendsRecord.key sortedOutputs sortedSpends
  if 0 < joined.orphanSpends then .error (.orphanSpends joined.orphanSpends)
  else
    (deriveKeys opts.toDeriveOptions allMeta.body allOutputs.body joined.emitted).mapError .derive

/-- The whole pipeline from genesis on fresh directories. -/
def bulkSync (opts : BulkOptions) (dumps : List Dump) (db : Db) : Except BulkError Db := do
  let keys ← phaseMerge opts (dumps.map (parseOutputs opts.network))
    (dumps.map (parseSpends opts.network)) (dumps.map (parseMeta opts.network))
  (loadKeys opts.batchSize keys db).mapError .load

end UtxoTracker.Bulk
