import Mathlib.Data.List.Nodup
import Mathlib.Data.List.Perm.Subperm
import Mathlib.Data.Rat.Defs
/-!
# JSON-RPC batches

A node may answer the requests of a batch in any order. `orderBatchResults` puts each response where
its id says, and refuses an answer in which the ids are not exactly those of the requests. The two
batches of `getBlocksBatch` are built and read by position.
-/

namespace UtxoTracker.Chain

/-- A parsed JSON value. A number too large for a double is read as infinite. -/
inductive Json where
  | null
  | bool (value : Bool)
  | num (value : ℚ)
  | infinity (negative : Bool)
  | str (value : String)
  | arr (items : List Json)
  | obj (fields : List (String × Json))

namespace Json

/-- A property read: only objects carry the properties asked for, and `none` is `undefined`. -/
def property (name : String) : Json → Option Json
  | obj fields => fields.lookup name
  | _ => none

/-- Whether a value counts as true. -/
def truthy : Json → Bool
  | null => false
  | bool value => value
  | num value => decide (value ≠ 0)
  | str value => decide (value ≠ "")
  | _ => true

/-- `Number.isInteger`, with the integer. -/
def integer : Json → Option Int
  | num value => if value.den = 1 then some value.num else none
  | _ => none

/-- `typeof` -/
def typeName : Json → String
  | null | arr _ | obj _ => "object"
  | bool _ => "boolean"
  | num _ | infinity _ => "number"
  | str _ => "string"

end Json

/-- Why a batch is refused. An id that is not there is `none`. -/
inductive BatchError where
  | notArray (label typeName : String)
  | wrongLength (label : String) (expectedCount length : Nat)
  | idOutOfRange (label : String) (id : Option Json) (expectedCount : Nat)
  | duplicateId (label : String) (id : Nat)
  /-- A response without a result. -/
  | noResult (message : String) (id : Nat)
  /-- The transport gave up. -/
  | transport (message : String)

/-! ### `orderBatchResults` -/

/-- `item ? item.id : undefined` -/
def responseId (item : Json) : Option Json := if item.truthy then item.property "id" else none

/-- The id of a response, if it is a slot of the array. -/
def slotOf (expectedCount : Nat) (item : Json) : Option Nat :=
  match (responseId item).bind Json.integer with
  | some id => if id < 0 ∨ expectedCount ≤ id then none else some id.toNat
  | none => none

/-- The loop over the responses. -/
def placeById (label : String) (expectedCount : Nat) :
    List Json → List (Option Json) → Except BatchError (List (Option Json))
  | [], byId => .ok byId
  | item :: rest, byId =>
      match slotOf expectedCount item with
      | none => .error (.idOutOfRange label (responseId item) expectedCount)
      | some id =>
          if (byId[id]?.getD none).isSome then .error (.duplicateId label id)
          else placeById label expectedCount rest (byId.set id (some item))

/-- An undefined slot of the answer is `none`. -/
def orderBatchResults (responseData : Json) (expectedCount : Nat) (label : String) :
    Except BatchError (List (Option Json)) :=
  match responseData with
  | .arr items =>
      if items.length ≠ expectedCount then
        .error (.wrongLength label expectedCount items.length)
      else placeById label expectedCount items (List.replicate expectedCount none)
  | other => .error (.notArray label other.typeName)

/-! ### `getBlocksBatch` -/

/-- One request of a batch, its id its position. -/
structure RpcRequest where
  method : String
  params : List Json
  id : Nat

structure FetchedBlock where
  height : Nat
  hash : Json
  hex : Json

/-- `r.result`, refused when it counts as false. -/
def resultOf (message : String) (id : Nat) (response : Option Json) : Except BatchError Json :=
  match response.bind (Json.property "result") with
  | some result => if result.truthy then .ok result else .error (.noResult message id)
  | none => .error (.noResult message id)

/-- The results of ordered responses, by position. -/
def resultsOf (message : String) : Nat → List (Option Json) → Except BatchError (List Json)
  | _, [] => .ok []
  | id, response :: rest => do
      let result ← resultOf message id response
      let results ← resultsOf message (id + 1) rest
      .ok (result :: results)

def hashBatch (heights : List Nat) : List RpcRequest :=
  heights.mapIdx fun i (h : Nat) => ⟨"getblockhash", [.num (h : ℚ)], i⟩

def blockBatch (hashes : List Json) : List RpcRequest :=
  hashes.mapIdx fun i hash => ⟨"getblock", [hash, .bool false], i⟩

/-- `getBlocksBatch` over `postWithRetry`, which gives the body of the node's answer. -/
def getBlocksBatch (postWithRetry : List RpcRequest → Except BatchError Json) (heights : List Nat) :
    Except BatchError (List FetchedBlock) :=
  if heights = [] then .ok []
  else do
    let hashResponse ← postWithRetry (hashBatch heights)
    let hashResults ← orderBatchResults hashResponse heights.length "getblockhash"
    let hashes ← resultsOf "Error getting block hash in batch for id " 0 hashResults
    let blockResponse ← postWithRetry (blockBatch hashes)
    let blockResults ← orderBatchResults blockResponse hashes.length "getblock"
    let blocks ← resultsOf "Error getting block in batch for id " 0 blockResults
    .ok ((heights.zip (hashes.zip blocks)).map fun entry => ⟨entry.1, entry.2.1, entry.2.2⟩)

end UtxoTracker.Chain
