import Mathlib.Data.Rat.Cast.Defs
import UtxoTracker.Chain.BatchRpc
/-!
# Every batched response at its request

`orderBatchResults` accepts an answer exactly when its ids are those of the requests, each once, and
then the response of request `i` is at position `i`. So `getBlocksBatch` gives every height its own
hash and the bytes of that hash, in whatever order the node answered.
-/

namespace UtxoTracker.Chain

open Json

variable {label : String} {n : Nat} {items : List Json} {byId byId' : List (Option Json)}

/-! ### One slot -/

theorem integer_eq_some {id : Json} {k : Int} : id.integer = some k ↔ id = .num k := by
  cases id with
  | num value =>
      simp only [integer, Option.ite_none_right_eq_some, Option.some.injEq, num.injEq]
      constructor
      · rintro ⟨hden, rfl⟩
        exact (Rat.den_eq_one_iff value).mp hden |>.symm
      · rintro rfl
        exact ⟨rfl, rfl⟩
  | _ => simp [integer]

/-- A response takes a slot when its id is the slot's number. -/
theorem slotOf_eq_some {item : Json} {i : Nat} :
    slotOf n item = some i ↔ responseId item = some (.num i) ∧ i < n := by
  unfold slotOf
  rcases hid : responseId item with _ | id
  · simp
  rw [Option.bind_some]
  rcases hint : id.integer with _ | k
  · simp only [reduceCtorEq, Option.some.injEq, false_iff, not_and]
    rintro rfl
    have hnum := integer_eq_some.mpr (show Json.num (i : ℚ) = .num ((i : Int) : ℚ) by norm_cast)
    rw [hint] at hnum
    cases hnum
  · rw [integer_eq_some] at hint
    subst hint
    simp only [Option.ite_none_left_eq_some, not_or, Int.not_lt, Option.some.injEq, num.injEq]
    constructor
    · rintro ⟨⟨hpos, hlt⟩, rfl⟩
      refine ⟨?_, by omega⟩
      rw [← Int.cast_natCast, Int.toNat_of_nonneg hpos]
    · rintro ⟨hnum, hlt⟩
      obtain rfl : k = (i : Int) := by exact_mod_cast hnum
      exact ⟨⟨Int.natCast_nonneg i, by omega⟩, Int.toNat_natCast i⟩

/-! ### The loop -/

/-- **The loop places every response**, and leaves what was placed before. -/
theorem placeById_spec (hlength : byId.length = n) (hrun : placeById label n items byId = .ok byId') :
    byId'.length = n ∧ (∀ (i : Nat) item, byId[i]? = some (some item) → byId'[i]? = some (some item)) ∧
      ∀ item ∈ items, ∃ i, slotOf n item = some i ∧ byId'[i]? = some (some item) := by
  induction items generalizing byId with
  | nil =>
      cases hrun
      exact ⟨hlength, fun _ _ hitem => hitem, fun _ hmem => absurd hmem List.not_mem_nil⟩
  | cons item rest ih =>
      rw [placeById] at hrun
      rcases hslot : slotOf n item with _ | i
      · rw [hslot] at hrun
        cases hrun
      rw [hslot] at hrun
      simp only at hrun
      split_ifs at hrun with hfree
      obtain ⟨hlength', hkept, hplaced⟩ := ih (List.length_set.trans hlength) hrun
      have hlt := (slotOf_eq_some.mp hslot).2
      have hitem : byId'[i]? = some (some item) :=
        hkept i item (List.getElem?_set_self (hlength ▸ hlt))
      refine ⟨hlength', fun j other hother => hkept j other ?_, fun other hmem => ?_⟩
      · have hne : i ≠ j := by
          rintro rfl
          rw [hother] at hfree
          exact hfree rfl
        rw [List.getElem?_set_ne hne, hother]
      · rcases List.mem_cons.mp hmem with rfl | hin
        · exact ⟨i, hslot, hitem⟩
        · exact hplaced other hin

/-- The loop ends when every response has a slot of its own. -/
theorem placeById_ok_iff (hlength : byId.length = n) :
    (∃ byId', placeById label n items byId = .ok byId') ↔
      ∃ ids : List Nat, items.map (slotOf n) = ids.map some ∧ ids.Nodup ∧
        ∀ i ∈ ids, byId[i]?.getD none = none := by
  induction items generalizing byId with
  | nil =>
      refine iff_of_true ⟨byId, rfl⟩ ⟨[], rfl, List.nodup_nil, fun _ hmem => ?_⟩
      cases hmem
  | cons item rest ih =>
      rcases hslot : slotOf n item with _ | i
      · refine iff_of_false ?_ ?_
        · rintro ⟨byId', hrun⟩
          rw [placeById, hslot] at hrun
          cases hrun
        · rintro ⟨ids, hids, -⟩
          cases ids with
          | nil => cases hids
          | cons j ids =>
              rw [List.map_cons, List.map_cons, hslot] at hids
              cases hids
      have hlt := (slotOf_eq_some.mp hslot).2
      rw [placeById, hslot]
      simp only
      by_cases hfree : (byId[i]?.getD none).isSome
      · rw [if_pos hfree]
        refine iff_of_false ?_ ?_
        · rintro ⟨byId', hrun⟩
          cases hrun
        · rintro ⟨ids, hids, -, hnone⟩
          cases ids with
          | nil => cases hids
          | cons j ids =>
              rw [List.map_cons, List.map_cons, hslot, List.cons.injEq, Option.some.injEq] at hids
              rw [hnone i (hids.1 ▸ List.mem_cons_self)] at hfree
              cases hfree
      rw [if_neg hfree, ih (List.length_set.trans hlength), List.map_cons, hslot]
      have hset : ∀ j, ((byId.set i (some item))[j]?.getD none = none) ↔
          i ≠ j ∧ byId[j]?.getD none = none := by
        intro j
        rcases eq_or_ne i j with rfl | hne
        · rw [List.getElem?_set_self (hlength ▸ hlt)]
          simp
        · rw [List.getElem?_set_ne hne]
          simp [hne]
      constructor
      · rintro ⟨ids, hids, hnodup, hnone⟩
        refine ⟨i :: ids, by rw [List.map_cons, hids], List.nodup_cons.mpr ⟨fun hmem => ?_, hnodup⟩,
          fun j hj => ?_⟩
        · exact ((hset i).mp (hnone i hmem)).1 rfl
        · rcases List.mem_cons.mp hj with rfl | hin
          · exact Option.not_isSome_iff_eq_none.mp hfree
          · exact ((hset j).mp (hnone j hin)).2
      · rintro ⟨ids, hids, hnodup, hnone⟩
        cases ids with
        | nil => cases hids
        | cons j ids =>
            rw [List.map_cons, List.cons.injEq, Option.some.injEq] at hids
            obtain ⟨rfl, hids⟩ := hids
            rw [List.nodup_cons] at hnodup
            refine ⟨ids, hids, hnodup.2, fun k hk => (hset k).mpr ⟨?_, ?_⟩⟩
            · rintro rfl
              exact hnodup.1 hk
            · exact hnone k (List.mem_cons_of_mem _ hk)

/-! ### `orderBatchResults` -/

/-- The ids of the responses are `0` to `n - 1`, in some order. -/
def IdsPermuted (n : Nat) (response : Json) : Prop :=
  ∃ items, response = .arr items ∧ ∃ ids : List Nat, ids.Perm (List.range n) ∧
    items.map responseId = ids.map fun id => some (.num id)

/-- Position `i` holds a response with the id `i`. -/
def Ordered (n : Nat) (byId : List (Option Json)) : Prop :=
  byId.length = n ∧ ∀ i < n, ∃ item, byId[i]? = some (some item) ∧ responseId item = some (.num i)

theorem perm_range {ids : List Nat} (hnodup : ids.Nodup) (hlt : ∀ id ∈ ids, id < n)
    (hlength : ids.length = n) : ids.Perm (List.range n) := by
  have hsub : ids ⊆ List.range n := fun id hid => List.mem_range.mpr (hlt id hid)
  refine (hnodup.subperm hsub).perm_of_length_le ?_
  rw [List.length_range, hlength]

/-- What an accepted answer is. -/
theorem orderBatchResults_ok_iff (label : String) {response : Json} :
    (∃ byId, orderBatchResults response n label = .ok byId) ↔ IdsPermuted n response := by
  cases response with
  | arr items =>
      rw [orderBatchResults]
      by_cases hlength : items.length = n
      · rw [if_neg (not_not.mpr hlength), placeById_ok_iff List.length_replicate]
        constructor
        · rintro ⟨ids, hids, hnodup, -⟩
          have hslot : ∀ id ∈ ids, id < n := by
            intro id hid
            have hmem : some id ∈ items.map (slotOf n) := hids ▸ List.mem_map_of_mem hid
            obtain ⟨item, -, hitem⟩ := List.mem_map.mp hmem
            exact (slotOf_eq_some.mp hitem).2
          have hcount : ids.length = n := by
            rw [← hlength, ← List.length_map (f := some), ← hids, List.length_map]
          refine ⟨items, rfl, ids, perm_range hnodup hslot hcount, ?_⟩
          refine List.ext_getElem (by simp [hlength, hcount]) fun i hi hi' => ?_
          have hget := congrArg (·[i]?) hids
          simp only [List.length_map] at hi hi'
          simp only [List.getElem?_map, List.getElem?_eq_getElem hi, List.getElem?_eq_getElem hi',
            Option.map_some, Option.some.injEq] at hget
          rw [List.getElem_map, List.getElem_map]
          exact (slotOf_eq_some.mp hget).1
        · rintro ⟨items', heq, ids, hperm, hids⟩
          obtain rfl := Json.arr.inj heq
          refine ⟨ids, ?_, hperm.nodup_iff.mpr List.nodup_range, fun i _ => ?_⟩
          · have hcount := congrArg List.length hids
            simp only [List.length_map] at hcount
            refine List.ext_getElem (by simp [hcount]) fun i hi hi' => ?_
            simp only [List.length_map] at hi hi'
            have hget := congrArg (·[i]?) hids
            simp only [List.getElem?_map, List.getElem?_eq_getElem hi,
              List.getElem?_eq_getElem hi', Option.map_some, Option.some.injEq] at hget
            rw [List.getElem_map, List.getElem_map]
            exact slotOf_eq_some.mpr
              ⟨hget, List.mem_range.mp (hperm.mem_iff.mp (List.getElem_mem hi'))⟩
          · by_cases hi : i < n <;> simp [hi]
      · rw [if_pos hlength]
        refine iff_of_false (fun hrun => ?_) ?_
        · obtain ⟨byId, hrun⟩ := hrun
          cases hrun
        · rintro ⟨items', heq, ids, hperm, hids⟩
          obtain rfl := Json.arr.inj heq
          have hcount := congrArg List.length hids
          rw [List.length_map, List.length_map, hperm.length_eq, List.length_range] at hcount
          exact hlength hcount
  | _ =>
      refine iff_of_false (fun hrun => ?_) ?_
      · obtain ⟨byId, hrun⟩ := hrun
        cases hrun
      · rintro ⟨items, heq, -⟩
        cases heq

/-- **An accepted answer is ordered by id.** -/
theorem ordered_of_ok {response : Json} (hrun : orderBatchResults response n label = .ok byId) :
    Ordered n byId ∧ ∀ item, some item ∈ byId → ∃ items, response = .arr items ∧ item ∈ items := by
  obtain ⟨items, rfl, ids, hperm, hids⟩ := (orderBatchResults_ok_iff label).mp ⟨byId, hrun⟩
  have hcount := congrArg List.length hids
  rw [List.length_map, List.length_map, hperm.length_eq, List.length_range] at hcount
  rw [orderBatchResults, if_neg (not_not.mpr hcount)] at hrun
  obtain ⟨hlength, -, hplaced⟩ := placeById_spec List.length_replicate hrun
  have hordered : ∀ i < n, ∃ item ∈ items, byId[i]? = some (some item) ∧
      responseId item = some (.num i) := by
    intro i hi
    have hmem : some (Json.num i) ∈ items.map responseId := by
      rw [hids]
      exact List.mem_map.mpr ⟨i, hperm.mem_iff.mpr (List.mem_range.mpr hi), rfl⟩
    obtain ⟨item, hitem, hid⟩ := List.mem_map.mp hmem
    obtain ⟨j, hslot, hget⟩ := hplaced item hitem
    obtain rfl : j = i := by
      have hboth := (slotOf_eq_some.mp hslot).1.symm.trans hid
      simpa using hboth
    exact ⟨item, hitem, hget, hid⟩
  refine ⟨⟨hlength, fun i hi => ?_⟩, fun item hmem => ⟨items, rfl, ?_⟩⟩
  · obtain ⟨item, -, hget, hid⟩ := hordered i hi
    exact ⟨item, hget, hid⟩
  · obtain ⟨i, hi, hget⟩ := List.getElem_of_mem hmem
    obtain ⟨item', hitem', hget', -⟩ := hordered i (hlength ▸ hi)
    rw [List.getElem?_eq_getElem hi, hget, Option.some.injEq, Option.some.injEq] at hget'
    exact hget' ▸ hitem'

/-! ### `getBlocksBatch` -/

section Blocks

variable {postWithRetry : List RpcRequest → Except BatchError Json}
  {answer : String → List Json → Json}

/-- The calls of a batch, each with its position as its id. -/
def batchOf (calls : List (String × List Json)) : List RpcRequest :=
  calls.mapIdx fun i call => ⟨call.1, call.2, i⟩

/-- Whatever else it sends, the node gives a response with the id of a call that call's result. -/
def AnswersById (postWithRetry : List RpcRequest → Except BatchError Json)
    (answer : String → List Json → Json) : Prop :=
  ∀ calls items, postWithRetry (batchOf calls) = .ok (.arr items) → ∀ item ∈ items,
    ∀ request ∈ batchOf calls, responseId item = some (.num request.id) →
      item.property "result" = some (answer request.method request.params)

/-- Every call is answered once, in some order, with a result. -/
def AnswersAll (postWithRetry : List RpcRequest → Except BatchError Json)
    (answer : String → List Json → Json) : Prop :=
  (∀ calls, ∃ response, postWithRetry (batchOf calls) = .ok response ∧
    IdsPermuted calls.length response) ∧ ∀ method params, (answer method params).truthy

theorem resultsOf_ok_iff {message : String} {id : Nat} {results : List Json} :
    resultsOf message id byId = .ok results ↔
      byId.map (fun response => response.bind (Json.property "result")) = results.map some ∧
        ∀ result ∈ results, result.truthy := by
  induction byId generalizing id results with
  | nil =>
      rw [resultsOf]
      cases results <;> simp
  | cons response rest ih =>
      rw [resultsOf, resultOf]
      rcases hresult : response.bind (Json.property "result") with _ | result
      · cases results <;> simp [bind, Except.bind, hresult]
      by_cases htruthy : result.truthy
      · simp only [htruthy, if_true, bind, Except.bind]
        rcases hrest : resultsOf message (id + 1) rest with e | more
        · have hnone : ∀ tail : List Json, ¬(rest.map (fun response =>
              response.bind (Json.property "result")) = tail.map some ∧
                ∀ result ∈ tail, result.truthy) := by
            intro tail htail
            rw [← ih, hrest] at htail
            cases htail
          refine iff_of_false (by simp) ?_
          rintro ⟨hmap, hall⟩
          cases results with
          | nil => cases hmap
          | cons first tail =>
              rw [List.map_cons, List.map_cons, List.cons.injEq] at hmap
              exact hnone tail ⟨hmap.2, fun r hr => hall r (List.mem_cons_of_mem _ hr)⟩
        · obtain ⟨hmap, hall⟩ := ih.mp hrest
          simp only [Except.ok.injEq]
          constructor
          · rintro rfl
            refine ⟨by rw [List.map_cons, List.map_cons, hresult, hmap], fun r hr => ?_⟩
            rcases List.mem_cons.mp hr with rfl | hin
            · exact htruthy
            · exact hall r hin
          · rintro ⟨hmap', -⟩
            rw [List.map_cons, hresult, hmap, ← List.map_cons] at hmap'
            exact List.map_injective_iff.mpr (Option.some_injective _) hmap'
      · simp only [htruthy, bind, Except.bind]
        refine iff_of_false (by simp) ?_
        rintro ⟨hmap, hall⟩
        cases results with
        | nil => cases hmap
        | cons first tail =>
            rw [List.map_cons, List.map_cons, hresult, List.cons.injEq, Option.some.injEq] at hmap
            exact htruthy (hmap.1 ▸ hall first List.mem_cons_self)

/-- The results of an accepted answer are those of the requests, in their order. -/
theorem results_of_requests (hnode : AnswersById postWithRetry answer) {calls : List (String × List Json)}
    {response : Json} (hpost : postWithRetry (batchOf calls) = .ok response)
    (hrun : orderBatchResults response calls.length label = .ok byId) :
    byId.map (fun response => response.bind (Json.property "result")) =
      (calls.map fun call => answer call.1 call.2).map some := by
  obtain ⟨⟨hlength, hordered⟩, hfrom⟩ := ordered_of_ok hrun
  apply List.ext_getElem
  · rw [List.length_map, List.length_map, List.length_map, hlength]
  · intro i hi hi'
    rw [List.length_map] at hi
    rw [List.length_map, List.length_map] at hi'
    obtain ⟨item, hget, hid⟩ := hordered i (hlength ▸ hi)
    rw [List.getElem?_eq_getElem hi, Option.some.injEq] at hget
    obtain ⟨items, rfl, hitem⟩ := hfrom item (hget ▸ List.getElem_mem hi)
    have hrequest : (⟨calls[i].1, calls[i].2, i⟩ : RpcRequest) ∈ batchOf calls :=
      List.mem_mapIdx.mpr ⟨i, hi', rfl⟩
    rw [List.getElem_map, List.getElem_map, List.getElem_map, hget]
    exact hnode calls items hpost item hitem _ hrequest hid

theorem hashBatch_eq (heights : List Nat) :
    hashBatch heights =
      batchOf (heights.map fun h : Nat => ("getblockhash", [Json.num (h : ℚ)])) := by
  simp [hashBatch, batchOf, List.mapIdx_eq_zipIdx_map, List.zipIdx_map]

theorem blockBatch_eq (hashes : List Json) :
    blockBatch hashes = batchOf (hashes.map fun hash => ("getblock", [hash, Json.bool false])) := by
  simp [blockBatch, batchOf, List.mapIdx_eq_zipIdx_map, List.zipIdx_map]

/-- The hash a node answers for a height. -/
def hashAt (answer : String → List Json → Json) (h : Nat) : Json := answer "getblockhash" [.num h]

/-- Every height with its own hash and the bytes of that hash. -/
def pairedBlocks (answer : String → List Json → Json) (heights : List Nat) : List FetchedBlock :=
  heights.map fun h => ⟨h, hashAt answer h, answer "getblock" [hashAt answer h, .bool false]⟩

/-- The results of the two batches, once they are accepted. -/
theorem results_eq (hnode : AnswersById postWithRetry answer) {calls : List (String × List Json)}
    {response : Json} (hpost : postWithRetry (batchOf calls) = .ok response)
    (hrun : orderBatchResults response calls.length label = .ok byId) {message : String}
    {results : List Json} (hresults : resultsOf message 0 byId = .ok results) :
    results = calls.map fun call => answer call.1 call.2 := by
  have hmap := (resultsOf_ok_iff.mp hresults).1
  rw [results_of_requests hnode hpost hrun] at hmap
  exact List.map_injective_iff.mpr (Option.some_injective _) hmap.symm

/-- A node that answers every request is accepted. -/
theorem results_ok (hnode : AnswersById postWithRetry answer)
    (hall : AnswersAll postWithRetry answer) (calls : List (String × List Json))
    (label message : String) :
    ∃ response byId, postWithRetry (batchOf calls) = .ok response ∧
      orderBatchResults response calls.length label = .ok byId ∧
      resultsOf message 0 byId = .ok (calls.map fun call => answer call.1 call.2) := by
  obtain ⟨response, hpost, hids⟩ := hall.1 calls
  obtain ⟨byId, hrun⟩ := (orderBatchResults_ok_iff label).mpr hids
  refine ⟨response, byId, hpost, hrun, resultsOf_ok_iff.mpr ⟨?_, fun result hmem => ?_⟩⟩
  · exact results_of_requests hnode hpost hrun
  · obtain ⟨call, -, rfl⟩ := List.mem_map.mp hmem
    exact hall.2 call.1 call.2

theorem zip_paired (heights : List Nat) (hash block : Nat → Json) :
    (heights.zip ((heights.map hash).zip (heights.map block))).map
      (fun entry => (⟨entry.1, entry.2.1, entry.2.2⟩ : FetchedBlock)) =
        heights.map fun h => ⟨h, hash h, block h⟩ := by
  induction heights with
  | nil => rfl
  | cons h rest ih =>
      simp only [List.map_cons, List.zip_cons_cons, ih]

/-- **Blocks are paired with their heights** whenever the batches are accepted. -/
theorem getBlocksBatch_paired (hnode : AnswersById postWithRetry answer) {heights : List Nat}
    {blocks : List FetchedBlock} (hrun : getBlocksBatch postWithRetry heights = .ok blocks) :
    blocks = pairedBlocks answer heights := by
  unfold getBlocksBatch at hrun
  split_ifs at hrun with hnil
  · cases hrun
    rw [hnil]
    rfl
  rcases hpost : postWithRetry (hashBatch heights) with e | response
  · simp [hpost, bind, Except.bind] at hrun
  rcases horder : orderBatchResults response heights.length "getblockhash" with e | hashResults
  · simp [hpost, horder, bind, Except.bind] at hrun
  rcases hresults : resultsOf "Error getting block hash in batch for id " 0 hashResults with e | hashes
  · simp [hpost, horder, hresults, bind, Except.bind] at hrun
  have hhashes : hashes = heights.map (hashAt answer) := by
    rw [hashBatch_eq] at hpost
    have heq := results_eq hnode hpost (List.length_map _ ▸ horder) hresults
    rw [List.map_map] at heq
    exact heq
  rcases hpost' : postWithRetry (blockBatch hashes) with e | response'
  · simp [hpost, horder, hresults, hpost', bind, Except.bind] at hrun
  rcases horder' : orderBatchResults response' hashes.length "getblock" with e | blockResults
  · simp [hpost, horder, hresults, hpost', horder', bind, Except.bind] at hrun
  rcases hresults' : resultsOf "Error getting block in batch for id " 0 blockResults with e | hexes
  · simp [hpost, horder, hresults, hpost', horder', hresults', bind, Except.bind] at hrun
  have hhexes : hexes = hashes.map fun hash => answer "getblock" [hash, .bool false] := by
    rw [blockBatch_eq] at hpost'
    have heq := results_eq hnode hpost' (List.length_map _ ▸ horder') hresults'
    rw [List.map_map] at heq
    exact heq
  simp only [hpost, horder, hresults, hpost', horder', hresults', bind, Except.bind,
    Except.ok.injEq] at hrun
  rw [← hrun, hhexes, hhashes, List.map_map]
  exact zip_paired heights _ _

/-- **A node that answers every request is served**, in whatever order it answers. -/
theorem getBlocksBatch_ok (hnode : AnswersById postWithRetry answer)
    (hall : AnswersAll postWithRetry answer) (heights : List Nat) :
    getBlocksBatch postWithRetry heights = .ok (pairedBlocks answer heights) := by
  suffices hok : ∃ blocks, getBlocksBatch postWithRetry heights = .ok blocks by
    obtain ⟨blocks, hrun⟩ := hok
    rw [hrun, getBlocksBatch_paired hnode hrun]
  unfold getBlocksBatch
  split_ifs with hnil
  · exact ⟨[], rfl⟩
  obtain ⟨response, byId, hpost, horder, hresults⟩ := results_ok hnode hall
    (heights.map fun h : Nat => ("getblockhash", [Json.num (h : ℚ)])) "getblockhash"
    "Error getting block hash in batch for id "
  obtain ⟨hashes, hhashes⟩ : ∃ hashes, (heights.map fun h : Nat => ("getblockhash", [Json.num (h : ℚ)])).map
    (fun call => answer call.1 call.2) = hashes := ⟨_, rfl⟩
  obtain ⟨response', byId', hpost', horder', hresults'⟩ := results_ok hnode hall
    (hashes.map fun hash => ("getblock", [hash, Json.bool false])) "getblock" "Error getting block in batch for id "
  rw [List.length_map] at horder horder'
  rw [← hashBatch_eq] at hpost
  rw [← blockBatch_eq] at hpost'
  rw [hhashes] at hresults
  simp only [hpost, horder, hresults, hpost', horder', hresults', bind, Except.bind]
  exact ⟨_, rfl⟩

/-- **Batched responses are paired with their requests.** An answer is accepted, each response at the
position of its id, exactly when it is an array whose ids are `0` to `n - 1` in some order, and is
refused otherwise. So every height gets its own hash and the bytes of that hash. -/
theorem batch_responses_paired :
    (∀ (response : Json) (n : Nat) (label : String),
      ((∃ byId, orderBatchResults response n label = .ok byId ∧ Ordered n byId) ↔
        IdsPermuted n response) ∧
      (¬IdsPermuted n response → ∃ e, orderBatchResults response n label = .error e)) ∧
    ∀ (postWithRetry : List RpcRequest → Except BatchError Json)
      (answer : String → List Json → Json), AnswersById postWithRetry answer →
      ∀ heights, (∀ blocks, getBlocksBatch postWithRetry heights = .ok blocks →
        blocks = pairedBlocks answer heights) ∧
      (AnswersAll postWithRetry answer →
        getBlocksBatch postWithRetry heights = .ok (pairedBlocks answer heights)) := by
  refine ⟨fun response n label => ⟨?_, fun hrefused => ?_⟩, fun post answer hnode heights =>
    ⟨fun blocks => getBlocksBatch_paired hnode, fun hall => getBlocksBatch_ok hnode hall heights⟩⟩
  · rw [← orderBatchResults_ok_iff label]
    constructor
    · rintro ⟨byId, hrun, -⟩
      exact ⟨byId, hrun⟩
    · rintro ⟨byId, hrun⟩
      exact ⟨byId, hrun, (ordered_of_ok hrun).1⟩
  · rcases hrun : orderBatchResults response n label with e | byId
    · exact ⟨e, rfl⟩
    · exact absurd ((orderBatchResults_ok_iff label).mp ⟨byId, hrun⟩) hrefused

/-- A node that answers a batch from its last request to its first. -/
def reversedNode (answer : String → List Json → Json) (requests : List RpcRequest) :
    Except BatchError Json :=
  .ok (.arr (requests.reverse.map fun request =>
    .obj [("id", .num request.id), ("result", answer request.method request.params)]))

theorem reversedNode_answersById (answer : String → List Json → Json) :
    AnswersById (reversedNode answer) answer := by
  intro calls items hpost item hitem request hrequest hid
  simp only [reversedNode, Except.ok.injEq, arr.injEq] at hpost
  subst hpost
  obtain ⟨sent, hsent, rfl⟩ := List.mem_map.mp hitem
  have hsame : sent.id = request.id := by
    simpa [responseId, truthy, property, List.lookup_cons, List.lookup_nil] using hid
  obtain ⟨i, hi, rfl⟩ := List.mem_mapIdx.mp (List.mem_reverse.mp hsent)
  obtain ⟨j, hj, rfl⟩ := List.mem_mapIdx.mp hrequest
  obtain rfl : i = j := hsame
  rfl

theorem reversedNode_answersAll {answer : String → List Json → Json}
    (htruthy : ∀ method params, (answer method params).truthy) :
    AnswersAll (reversedNode answer) answer := by
  refine ⟨fun calls => ⟨_, rfl, _, rfl, (List.range calls.length).reverse, List.reverse_perm _, ?_⟩,
    htruthy⟩
  rw [List.map_map, List.map_reverse, List.map_reverse]
  congr 1
  apply List.ext_getElem
  · simp [batchOf]
  · intro i hi hi'
    simp [batchOf, responseId, truthy, property]

/-- Three heights asked for out of order, of a node that answers backwards. -/
theorem batch_responses_paired_reversed :
    getBlocksBatch (reversedNode fun method params => .arr (.str method :: params)) [7, 5, 6] =
      .ok (pairedBlocks (fun method params => .arr (.str method :: params)) [7, 5, 6]) :=
  (batch_responses_paired.2 _ _ (reversedNode_answersById _) [7, 5, 6]).2
    (reversedNode_answersAll fun _ _ => rfl)

end Blocks

end UtxoTracker.Chain
