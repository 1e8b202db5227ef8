import UtxoTracker.Tracker.Reference
/-!
# Facts about chains

What a block creates comes from one of its transactions, so a chain with distinct txids never
creates an outpoint twice and no two of its blocks share a record key.
-/

namespace UtxoTracker

open LevelUpStore

/-! ### What a block creates -/

theorem newOutputs_getElem? (tx : Tx) (height : Int) (i : Nat) :
    (newOutputs tx height)[i]? = (tx.outs[i]?).map fun output =>
      { scriptPubKey := output.scriptHash
        txHash := tx.id
        outputIndex := i
        value := output.value
        height
        coinbase := tx.isCoinbase } := by
  simp [newOutputs, List.getElem?_mapIdx]

/-- A transaction's output at vout `i` names itself. -/
theorem newOutputs_fields {tx : Tx} {height : Int} {i : Nat} {out : NewOutput}
    (hout : (newOutputs tx height)[i]? = some out) :
    out.txHash = tx.id ∧ out.outputIndex = i ∧ out.height = height := by
  rw [newOutputs_getElem?] at hout
  obtain ⟨output, -, rfl⟩ := Option.map_eq_some_iff.mp hout
  exact ⟨rfl, rfl, rfl⟩

theorem newOutputs_height {tx : Tx} {height : Int} {out : NewOutput}
    (hmem : out ∈ newOutputs tx height) : out.height = height := by
  obtain ⟨i, hi⟩ := List.mem_iff_getElem?.mp hmem
  exact (newOutputs_fields hi).2.2

theorem Block.created_eq_some {b : Block} {height : Int} {o : OutPoint} {out : NewOutput}
    (hcreated : b.created height o = some out) :
    ∃ tx ∈ b.transactions, tx.id = o.txid ∧ (newOutputs tx height)[o.index]? = some out := by
  obtain ⟨tx, hfind, hout⟩ := Option.bind_eq_some_iff.mp hcreated
  have hid : tx.id = o.txid := by simpa using List.find?_some hfind
  exact ⟨tx, List.mem_of_find?_eq_some hfind, hid, hout⟩

theorem Block.created_fields {b : Block} {height : Int} {o : OutPoint} {out : NewOutput}
    (hcreated : b.created height o = some out) :
    out.outPoint = o ∧ out.height = height := by
  obtain ⟨tx, -, hid, hout⟩ := Block.created_eq_some hcreated
  obtain ⟨htx, hindex, hheight⟩ := newOutputs_fields hout
  exact ⟨by rw [NewOutput.outPoint, htx, hindex, hid], hheight⟩

/-- With distinct txids, every output of every transaction is created. -/
theorem Block.created_of_mem {b : Block} (hnodup : (b.transactions.map Tx.id).Nodup) {tx : Tx}
    (htx : tx ∈ b.transactions) (height : Int) (i : Nat) :
    b.created height ⟨tx.id, i⟩ = (newOutputs tx height)[i]? := by
  have hfind : (b.transactions.find? fun tx' => tx'.id = tx.id) = some tx := by
    cases hfound : b.transactions.find? fun tx' => tx'.id = tx.id with
    | none =>
        have := List.find?_eq_none.mp hfound tx htx
        simp at this
    | some other =>
        have hother := List.mem_of_find?_eq_some hfound
        have hid : other.id = tx.id := by simpa using List.find?_some hfound
        rw [List.inj_on_of_nodup_map hnodup hother htx hid]
  rw [Block.created, hfind, Option.bind_some]

theorem Block.hasTx_iff {b : Block} {txid : Hash} :
    b.hasTx txid = true ↔ ∃ tx ∈ b.transactions, tx.id = txid := by
  simp [Block.hasTx]

theorem Block.hasTx_of_created {b : Block} {height : Int} {o : OutPoint}
    (hcreated : (b.created height o).isSome) : b.hasTx o.txid = true := by
  obtain ⟨out, hout⟩ := Option.isSome_iff_exists.mp hcreated
  obtain ⟨tx, htx, hid, -⟩ := Block.created_eq_some hout
  exact Block.hasTx_iff.mpr ⟨tx, htx, hid⟩

theorem Block.created_eq_none {b : Block} {height : Int} {o : OutPoint}
    (habsent : b.hasTx o.txid = false) : b.created height o = none := by
  cases hcreated : b.created height o with
  | none => rfl
  | some out =>
      have := Block.hasTx_of_created (Option.isSome_of_eq_some hcreated)
      rw [habsent] at this
      cases this

/-- A transaction with an output creates its first outpoint. -/
theorem ValidBlock.created_zero {chain : Chain} {b : Block} (hvalid : ValidBlock chain b)
    {txid : Hash} (hmem : b.hasTx txid = true) (height : Int) :
    (b.created height ⟨txid, 0⟩).isSome := by
  obtain ⟨tx, htx, rfl⟩ := Block.hasTx_iff.mp hmem
  rw [Block.created_of_mem hvalid.ids_nodup htx, newOutputs_getElem?, Option.isSome_map]
  simpa using List.length_pos_iff.mpr (hvalid.outs_nonempty tx htx)

/-! ### What a chain creates -/

theorem everCreated_cons (b : Block) (rest : Chain) (o : OutPoint) :
    everCreated (b :: rest) o = (b.created rest.length o).or (everCreated rest o) := rfl

theorem utxo_cons (b : Block) (rest : Chain) :
    utxo (b :: rest) = (b.delta rest.length).apply (utxo rest) := rfl

theorem everCreated_of_utxo {chain : Chain} {o : OutPoint} {out : NewOutput}
    (hutxo : utxo chain o = some out) : everCreated chain o = some out :=
  Ledger.everCreated_of_replay hutxo

theorem utxo_eq_none_of_everCreated {chain : Chain} {o : OutPoint}
    (hnone : everCreated chain o = none) : utxo chain o = none :=
  Ledger.replay_eq_none_of_everCreated hnone

theorem everCreated_eq_none {chain : Chain} {o : OutPoint}
    (habsent : ∀ c ∈ chain, c.hasTx o.txid = false) : everCreated chain o = none := by
  induction chain with
  | nil => rfl
  | cons b rest ih =>
      rw [everCreated_cons, Block.created_eq_none (habsent b List.mem_cons_self),
        ih fun c hc => habsent c (List.mem_cons_of_mem _ hc), Option.or_none]

/-- An output created by a block was not created before it. -/
theorem ValidBlock.fresh {chain : Chain} {b : Block} (hvalid : ValidBlock chain b) {height : Int}
    {o : OutPoint} (hcreated : (b.created height o).isSome) : everCreated chain o = none := by
  obtain ⟨tx, htx, hid⟩ := Block.hasTx_iff.mp (Block.hasTx_of_created hcreated)
  exact everCreated_eq_none fun c hc => hid ▸ hvalid.ids_fresh tx htx c hc

theorem ValidChain.tail {b : Block} {rest : Chain} (hvalid : ValidChain (b :: rest)) :
    ValidChain rest := hvalid.2

theorem ValidChain.below {newer chain : Chain} (hvalid : ValidChain (newer ++ chain)) :
    ValidChain chain := by
  induction newer with
  | nil => exact hvalid
  | cons b rest ih => exact ih hvalid.tail

theorem ValidBlock.delta_fresh {chain : Chain} {b : Block} (hvalid : ValidBlock chain b) :
    (b.delta chain.length).Fresh (utxo chain) :=
  fun _ hcreated => utxo_eq_none_of_everCreated (hvalid.fresh hcreated)

/-- Every output the chain ever created names itself and was mined below the tip. -/
theorem everCreated_fields {chain : Chain} {o : OutPoint} {out : NewOutput}
    (hever : everCreated chain o = some out) :
    out.outPoint = o ∧ 0 ≤ out.height ∧ out.height < chain.length := by
  induction chain with
  | nil => cases hever
  | cons b rest ih =>
      rw [everCreated_cons] at hever
      cases hcreated : b.created rest.length o with
      | some created =>
          rw [hcreated, Option.some_or, Option.some.injEq] at hever
          subst hever
          obtain ⟨ho, hheight⟩ := Block.created_fields hcreated
          rw [hheight, List.length_cons]
          exact ⟨ho, by omega, by omega⟩
      | none =>
          rw [hcreated, Option.none_or] at hever
          obtain ⟨ho, hlow, hhigh⟩ := ih hever
          rw [List.length_cons]
          exact ⟨ho, hlow, by omega⟩

/-- A block only spends what the chain created by then. -/
theorem ValidChain.everCreated_of_spent {chain : Chain} (hvalid : ValidChain chain) {c : Block}
    (hmem : c ∈ chain) {o : OutPoint} (hspent : o ∈ c.spent) : (everCreated chain o).isSome := by
  induction chain with
  | nil => cases hmem
  | cons b rest ih =>
      rw [everCreated_cons, Option.isSome_or, Bool.or_eq_true]
      rcases List.mem_cons.mp hmem with rfl | hin
      · refine (hvalid.1.spendable o hspent).imp_right fun hutxo => ?_
        obtain ⟨out, hout⟩ := Option.isSome_iff_exists.mp hutxo
        rw [everCreated_of_utxo hout]
        rfl
      · exact Or.inr (ih hvalid.2 hin)

/-- **The unspent outputs** of a valid chain are the outputs it creates and never spends. -/
theorem ValidChain.utxo_eq_some {chain : Chain} (hvalid : ValidChain chain) {o : OutPoint}
    {out : NewOutput} :
    utxo chain o = some out ↔ everCreated chain o = some out ∧ ∀ c ∈ chain, o ∉ c.spent := by
  induction chain with
  | nil => simp [utxo, everCreated, deltas, Ledger.replay, Ledger.everCreated]
  | cons b rest ih =>
      rw [utxo_cons, everCreated_cons, List.forall_mem_cons]
      by_cases hspent : o ∈ b.spent
      · simp [Ledger.Delta.apply, Block.delta, hspent]
      · have happly : (b.delta rest.length).apply (utxo rest) o =
            (b.created rest.length o).or (utxo rest o) := if_neg hspent
        rw [happly]
        cases hcreated : b.created rest.length o with
        | none => simp [hspent, ih hvalid.2]
        | some created =>
            -- A block below cannot have spent what did not exist yet.
            have hbelow : ∀ c ∈ rest, o ∉ c.spent := by
              intro c hc hspentBelow
              have hsome := hvalid.2.everCreated_of_spent hc hspentBelow
              rw [hvalid.1.fresh (Option.isSome_of_eq_some hcreated)] at hsome
              cases hsome
            simp only [Option.some_or]
            exact ⟨fun h => ⟨h, hspent, hbelow⟩, And.left⟩

/-! ### Finding a block -/

theorem blockAt_cons (b : Block) (rest : Chain) (hash : Hash) :
    blockAt (b :: rest) hash = if b.hash = hash then some (b, rest) else blockAt rest hash := rfl

theorem blockAt_eq_none {chain : Chain} {hash : Hash} (habsent : ∀ c ∈ chain, c.hash ≠ hash) :
    blockAt chain hash = none := by
  induction chain with
  | nil => rfl
  | cons b rest ih =>
      rw [blockAt_cons, if_neg (habsent b List.mem_cons_self)]
      exact ih fun c hc => habsent c (List.mem_cons_of_mem _ hc)

theorem blockAt_eq_some {chain : Chain} {hash : Hash} {b : Block} {rest : Chain}
    (hfound : blockAt chain hash = some (b, rest)) :
    b.hash = hash ∧ ∃ above, chain = above ++ b :: rest := by
  induction chain with
  | nil => cases hfound
  | cons c below ih =>
      rw [blockAt_cons] at hfound
      by_cases hhash : c.hash = hash
      · rw [if_pos hhash, Option.some.injEq, Prod.mk.injEq] at hfound
        obtain ⟨rfl, rfl⟩ := hfound
        exact ⟨hhash, [], rfl⟩
      · rw [if_neg hhash] at hfound
        obtain ⟨hb, above, rfl⟩ := ih hfound
        exact ⟨hb, c :: above, rfl⟩

theorem txBlock_cons (b : Block) (rest : Chain) (txid : Hash) :
    txBlock (b :: rest) txid =
      if b.hasTx txid = true then some (b, rest) else txBlock rest txid := rfl

theorem txBlock_eq_none {chain : Chain} {txid : Hash}
    (habsent : ∀ c ∈ chain, c.hasTx txid = false) : txBlock chain txid = none := by
  induction chain with
  | nil => rfl
  | cons b rest ih =>
      rw [txBlock_cons, habsent b List.mem_cons_self]
      exact ih fun c hc => habsent c (List.mem_cons_of_mem _ hc)

theorem txBlock_eq_some {chain : Chain} {txid : Hash} {b : Block} {rest : Chain}
    (hfound : txBlock chain txid = some (b, rest)) :
    b.hasTx txid = true ∧ b ∈ chain ∧ rest.length < chain.length := by
  induction chain with
  | nil => cases hfound
  | cons c below ih =>
      rw [txBlock_cons] at hfound
      by_cases hmem : c.hasTx txid = true
      · rw [if_pos hmem, Option.some.injEq, Prod.mk.injEq] at hfound
        obtain ⟨rfl, rfl⟩ := hfound
        exact ⟨hmem, List.mem_cons_self, by simp⟩
      · rw [if_neg hmem] at hfound
        obtain ⟨hb, hin, hlen⟩ := ih hfound
        exact ⟨hb, List.mem_cons_of_mem _ hin, by rw [List.length_cons]; omega⟩

theorem ValidChain.hash_nodup {chain : Chain} (hvalid : ValidChain chain) :
    (chain.map Block.hash).Nodup := by
  induction chain with
  | nil => exact List.nodup_nil
  | cons b rest ih =>
      rw [List.map_cons, List.nodup_cons]
      refine ⟨fun hmem => ?_, ih hvalid.2⟩
      obtain ⟨c, hc, heq⟩ := List.mem_map.mp hmem
      exact hvalid.1.hash_fresh c hc heq

end UtxoTracker
