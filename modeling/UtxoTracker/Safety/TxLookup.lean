import UtxoTracker.Concurrency.TxLookup
import UtxoTracker.Proof.Start
import UtxoTracker.Safety.UtxoSet
/-!
# What a transaction lookup describes

The four reads of `getTxBlock` agree on one chain exactly when the commits among them leave the named
block where it is and the height where it is.
-/

namespace UtxoTracker

open Resumption Relation

/-- The answer is about this chain: it reports the chain's tip, and a block on it at its height. -/
structure TxBlock.Describes (answer : TxBlock) (chain : Chain) : Prop where
  tip : answer.sync = ⟨chain.length - 1, chain.head?.map Block.hash⟩
  named : ∃ b rest, blockAt chain answer.blockHash = some (b, rest) ∧
    answer.blockHeight = rest.length

/-- The height of the block with this hash. -/
def heightAt (chain : Chain) (hash : Hash) : Option Nat :=
  (blockAt chain hash).map fun found => found.2.length

/-! ### The four reads -/

section Reads

variable {text : String} {stores : List LevelUpStore} {answer : TxBlock}

theorem reportTip_advance {blockHash : Hash} {block : BlockRecord}
    (hdone : (reportTip blockHash block).advance stores = .done (some answer)) :
    ∃ σ₃ σ₄ later, stores = σ₃ :: σ₄ :: later ∧
      answer = ⟨blockHash, block.h, ⟨σ₃.getLastBlockHeight, σ₄.getLastBlockHash⟩⟩ := by
  rcases stores with _ | ⟨σ₃, _ | ⟨σ₄, later⟩⟩
  · cases hdone
  · cases hdone
  · refine ⟨σ₃, σ₄, later, rfl, ?_⟩
    cases later with
    | nil =>
        injection hdone with hanswer
        exact (Option.some.inj hanswer).symm
    | cons _ _ =>
        injection hdone with hanswer
        exact (Option.some.inj hanswer).symm

theorem readTxBlock_advance {blockHash : Hash}
    (hdone : (readTxBlock blockHash).advance stores = .done (some answer)) :
    ∃ σ₂ σ₃ σ₄ later block, stores = σ₂ :: σ₃ :: σ₄ :: later ∧
      σ₂.getBlock blockHash = some block ∧
      answer = ⟨blockHash, block.h, ⟨σ₃.getLastBlockHeight, σ₄.getLastBlockHash⟩⟩ := by
  cases stores with
  | nil => cases hdone
  | cons σ₂ rest =>
      rw [readTxBlock, advance_await] at hdone
      cases hblock : σ₂.getBlock blockHash with
      | none =>
          rw [hblock] at hdone
          cases rest <;> cases hdone
      | some block =>
          rw [hblock] at hdone
          obtain ⟨σ₃, σ₄, later, rfl, hanswer⟩ := reportTip_advance hdone
          exact ⟨σ₂, σ₃, σ₄, later, block, rfl, hblock, hanswer⟩

/-- A lookup that answers has read the `X` record, the `B` record it names, the height and the
hash. -/
theorem getTxBlock_advance (hdone : (getTxBlock text).advance stores = .done (some answer)) :
    ∃ txid σ₁ σ₂ σ₃ σ₄ later block, txidOfHex text = some txid ∧
      stores = σ₁ :: σ₂ :: σ₃ :: σ₄ :: later ∧
      (σ₁.db[Key.txExact txid]?).bind decodeHash = some answer.blockHash ∧
      σ₂.getBlock answer.blockHash = some block ∧ answer.blockHeight = block.h ∧
      answer.sync = ⟨σ₃.getLastBlockHeight, σ₄.getLastBlockHash⟩ := by
  unfold getTxBlock at hdone
  cases htext : txidOfHex text with
  | none =>
      rw [htext] at hdone
      cases stores <;> cases hdone
  | some txid =>
      rw [htext] at hdone
      cases stores with
      | nil => cases hdone
      | cons σ₁ rest =>
          rw [advance_await] at hdone
          cases hfound : (σ₁.db[Key.txExact txid]?).bind decodeHash with
          | none =>
              rw [hfound] at hdone
              cases rest <;> cases hdone
          | some blockHash =>
              rw [hfound] at hdone
              obtain ⟨σ₂, σ₃, σ₄, later, block, rfl, hblock, rfl⟩ := readTxBlock_advance hdone
              exact ⟨txid, σ₁, σ₂, σ₃, σ₄, later, block, rfl, rfl, hfound, hblock, rfl, rfl⟩

end Reads

/-! ### The reads of a run -/

section Run

variable {text : String} {l l' : LookupState} {answer : TxBlock}

/-- The reads of a lookup so far, at states of the run in its order, each asked for by what was left
after the reads before it. -/
structure LookupInv (text : String) (l : LookupState) : Prop where
  reach : Transition.Reachable FromStore Step l.sys
  left : l.left = (getTxBlock text).advance (l.seen.map fun s => s.tracker.db)
  ordered : (l.seen ++ [l.sys]).IsChain (ReflTransGen Step)
  visited : ∀ s ∈ l.seen, Transition.Reachable FromStore Step s
  asked : ∀ earlier s later, l.seen = earlier ++ s :: later →
    ∃ next, (getTxBlock text).advance (earlier.map fun s => s.tracker.db) = .await next

theorem LookupInv.init (hinit : LookupInit text l) : LookupInv text l := by
  obtain ⟨hreach, hleft, hseen⟩ := hinit
  refine ⟨hreach, ?_, ?_, ?_, ?_⟩
  · rw [hleft, hseen, List.map_nil, advance_nil]
  · rw [hseen]
    exact List.isChain_singleton _
  · rw [hseen]
    exact fun s hs => by cases hs
  · rw [hseen]
    intro earlier s later heq
    exact absurd heq.symm (List.append_ne_nil_of_right_ne_nil _ (List.cons_ne_nil _ _))

theorem LookupInv.step (hinv : LookupInv text l) (hstep : LookupStep l l') : LookupInv text l' := by
  cases hstep with
  | @look next hleft =>
      refine ⟨hinv.reach, ?_, ?_, fun s hs => ?_, fun earlier s later heq => ?_⟩
      · rw [List.map_append, advance_append, ← hinv.left, hleft]
        exact (advance_nil _).symm
      · refine List.isChain_append.mpr ⟨hinv.ordered, List.isChain_singleton _, ?_⟩
        intro s hlast s' hhead
        simp only [List.getLast?_append, List.getLast?_singleton, Option.some_or, Option.mem_def,
          Option.some.injEq, List.head?_cons] at hlast hhead
        subst hlast hhead
        exact .refl
      · rcases List.mem_append.mp hs with hin | hin
        · exact hinv.visited s hin
        · obtain rfl := List.mem_singleton.mp hin
          exact hinv.reach
      · rcases List.eq_nil_or_concat later with rfl | ⟨front, last, rfl⟩
        · obtain ⟨hfront, -⟩ := List.append_inj' heq rfl
          rw [← hfront, ← hinv.left]
          exact ⟨next, hleft⟩
        · have hends : l.seen ++ [l.sys] = (earlier ++ s :: front) ++ [last] := by
            simpa using heq
          obtain ⟨hfront, -⟩ := List.append_inj' hends rfl
          exact hinv.asked earlier s front hfront
  | @loop s hstep =>
      refine ⟨hinv.reach.next hstep, hinv.left, ?_, hinv.visited, hinv.asked⟩
      obtain ⟨hseen, -, hlink⟩ := List.isChain_append.mp hinv.ordered
      refine List.isChain_append.mpr ⟨hseen, List.isChain_singleton _, ?_⟩
      intro before hlast after hhead
      simp only [List.head?_cons, Option.mem_def, Option.some.injEq] at hhead
      subst hhead
      exact (hlink before hlast l.sys rfl).tail hstep

theorem LookupInv.reachable (hreach : LookupReachable text l) : LookupInv text l :=
  hreach.invariant (fun _ hinit => .init hinit) fun _ _ hinv hstep => hinv.step hstep

theorem reachable_store_durable {s : Sys} (hreach : Transition.Reachable FromStore Step s) :
    ∃ p depth, Durable p s.chain depth s.tracker.db.db := by
  obtain ⟨depth, hinv⟩ := Inv.reachable (fun _ hinit => FromStore.inv hinit) hreach
  exact ⟨_, depth, hinv.durable⟩

/-- The reads of a lookup that has its answer. -/
theorem LookupInv.reads (hinv : LookupInv text l) (hdone : l.left = .done (some answer)) :
    ∃ txid atTx atBlock atHeight atHash block, txidOfHex text = some txid ∧
      l.seen = [atTx, atBlock, atHeight, atHash] ∧
      (atTx.tracker.db.db[Key.txExact txid]?).bind decodeHash = some answer.blockHash ∧
      atBlock.tracker.db.getBlock answer.blockHash = some block ∧ answer.blockHeight = block.h ∧
      answer.sync =
        ⟨atHeight.tracker.db.getLastBlockHeight, atHash.tracker.db.getLastBlockHash⟩ := by
  have hrun := hinv.left.symm.trans hdone
  obtain ⟨txid, σ₁, σ₂, σ₃, σ₄, more, block, htext, hstores, hfound, hblock, hheight, hsync⟩ :=
    getTxBlock_advance hrun
  obtain ⟨atTx, rest₁, hseen, rfl, htail₁⟩ := List.map_eq_cons_iff.mp hstores
  obtain ⟨atBlock, rest₂, rfl, rfl, htail₂⟩ := List.map_eq_cons_iff.mp htail₁
  obtain ⟨atHeight, rest₃, rfl, rfl, htail₃⟩ := List.map_eq_cons_iff.mp htail₂
  obtain ⟨atHash, later, rfl, rfl, -⟩ := List.map_eq_cons_iff.mp htail₃
  refine ⟨txid, atTx, atBlock, atHeight, atHash, block, htext, ?_, hfound, hblock, hheight, hsync⟩
  cases later with
  | nil => exact hseen
  | cons fifth later =>
      obtain ⟨next, hnext⟩ := hinv.asked [atTx, atBlock, atHeight, atHash] fifth later hseen
      have hgot : (getTxBlock text).advance
          ([atTx, atBlock, atHeight, atHash].map fun s => s.tracker.db) = .done (some answer) := by
        simp only [getTxBlock, htext, List.map_cons, List.map_nil, advance_await, hfound,
          readTxBlock, hblock]
        obtain ⟨named, height, sync⟩ := answer
        dsimp only at hheight hsync
        rw [hheight, hsync]
        rfl
      cases hgot.symm.trans hnext

/-- **When a lookup describes one chain.** The chain is the one at the last read. The lookup made four
reads; its answer names the block that carried the transaction at the first, and describes that chain
exactly when the block holds the height it had at the second read, and the third read met that
chain's height. -/
theorem getTxBlock_describes_iff (hreach : LookupReachable text l)
    (hdone : l.left = .done (some answer)) :
    ∃ (txid : Hash) (atTx atBlock atHeight atHash : Sys) (b : Block) (rest : Chain),
      txidOfHex text = some txid ∧ l.seen = [atTx, atBlock, atHeight, atHash] ∧
      (l.seen ++ [l.sys]).IsChain (ReflTransGen Step) ∧
      txBlock atTx.chain txid = some (b, rest) ∧ answer.blockHash = b.hash ∧
      (answer.Describes atHash.chain ↔
        heightAt atHash.chain b.hash = heightAt atBlock.chain b.hash ∧
          atHash.chain.length = atHeight.chain.length) := by
  have hinv := LookupInv.reachable hreach
  obtain ⟨txid, atTx, atBlock, atHeight, atHash, block, htext, hseen, hfound, hblock, hheight,
    hsync⟩ := hinv.reads hdone
  have hdurable : ∀ s ∈ l.seen, ∃ p depth, Durable p s.chain depth s.tracker.db.db :=
    fun s hs => reachable_store_durable (hinv.visited s hs)
  rw [hseen] at hdurable
  obtain ⟨p₁, depth₁, hfirst⟩ := hdurable atTx (by simp)
  obtain ⟨p₂, depth₂, hsecond⟩ := hdurable atBlock (by simp)
  obtain ⟨p₃, depth₃, hthird⟩ := hdurable atHeight (by simp)
  obtain ⟨p₄, depth₄, hlast⟩ := hdurable atHash (by simp)
  -- The `X` record is the reference's.
  rw [hfirst.indexes _ rfl, Provenance.record] at hfound
  obtain ⟨value, hvalue, hdecoded⟩ := Option.bind_eq_some_iff.mp hfound
  obtain ⟨⟨b, rest⟩, hcarried, hindexed⟩ := Option.bind_eq_some_iff.mp hvalue
  have hnamed : answer.blockHash = b.hash := by
    split_ifs at hindexed
    obtain rfl := Option.some.inj hindexed
    exact (Option.some.inj hdecoded).symm
  refine ⟨txid, atTx, atBlock, atHeight, atHash, b, rest, htext, hseen, hinv.ordered, hcarried,
    hnamed, ?_⟩
  -- The `B` record gives the height of the second read.
  rw [hsecond.getBlock, hnamed] at hblock
  obtain ⟨⟨c, below⟩, hat, rfl⟩ := Option.map_eq_some_iff.mp hblock
  have hwas : heightAt atBlock.chain b.hash = some below.length := by rw [heightAt, hat]; rfl
  rw [hthird.getLastBlockHeight] at hsync
  rw [hwas, heightAt, Option.map_eq_some_iff]
  constructor
  · rintro ⟨htip, d, under, hon, hat'⟩
    rw [hnamed] at hon
    rw [hsync, CommittedTip.mk.injEq] at htip
    refine ⟨⟨(d, under), hon, ?_⟩, ?_⟩
    · rw [hheight] at hat'
      exact (Int.natCast_inj.mp hat').symm
    · have hlength := htip.1
      omega
  · rintro ⟨⟨⟨d, under⟩, hon, hat'⟩, hlength⟩
    refine ⟨?_, d, under, hnamed ▸ hon, ?_⟩
    · cases hchain : atHash.chain with
      | nil =>
          rw [hchain] at hon
          cases hon
      | cons top under' =>
          rw [hchain] at hlast hlength
          rw [hsync, hlast.getLastBlockHash, ← hlength]
          rfl
    · rw [hheight]
      exact congrArg Nat.cast hat'.symm

/-! ### A commit between the height and the hash -/

theorem LookupReachable.look {next : LevelUpStore → Resumption LevelUpStore (Option TxBlock)}
    (left : Resumption LevelUpStore (Option TxBlock)) (hreach : LookupReachable text l)
    (hleft : l.left = .await next) (hnext : next l.sys.tracker.db = left) :
    LookupReachable text { l with left, seen := l.seen ++ [l.sys] } := by
  subst hnext
  exact hreach.next (.look hleft)

/-- The txid of the first block's coinbase. -/
def firstTxid : String := "0000000000000000000000000000000000000000000000000000000000000064"

theorem txidOfHex_firstTxid : txidOfHex firstTxid = some 100 := by decide +kernel

/-- The lookup of the first transaction, up to its last read. -/
theorem lookup_before_hash {s : Sys} (hreach : Transition.Reachable FromEmpty Step s)
    (hchain : s.chain = [firstBlock]) :
    LookupReachable firstTxid
      { sys := s
        left := .await fun σ => .done (some ⟨1, 0, ⟨0, σ.getLastBlockHash⟩⟩)
        seen := [s, s, s] } := by
  obtain ⟨depth, hdurable⟩ := reachable_durable hreach
  rw [hchain] at hdurable
  have hstart : LookupReachable firstTxid ⟨s, getTxBlock firstTxid, []⟩ :=
    .start ⟨hreach.mono (fun _ hinit => Or.inl hinit) fun _ _ hstep => hstep, rfl, rfl⟩
  have htx : (s.tracker.db.db[Key.txExact 100]?).bind decodeHash = some 1 := by
    rw [hdurable.indexes _ rfl]
    rfl
  have hblock : s.tracker.db.getBlock 1 = some ⟨0, 10, 0⟩ := by
    rw [hdurable.getBlock]
    rfl
  have hheight : s.tracker.db.getLastBlockHeight = 0 := by
    rw [hdurable.getLastBlockHeight]
    rfl
  have hfirst := LookupReachable.look (readTxBlock 1) hstart
    (by rw [getTxBlock, txidOfHex_firstTxid]) (by simp only [htx])
  have hsecond := LookupReachable.look (reportTip 1 ⟨0, 10, 0⟩) hfirst rfl
    (by simp only [hblock])
  exact LookupReachable.look _ hsecond rfl (by dsimp only; rw [hheight]; rfl)

/-- A lookup that no commit interrupts describes the chain it ran on. -/
theorem getTxBlock_describes_iff_uninterrupted : ∃ l answer, LookupReachable firstTxid l ∧
    l.left = .done (some answer) ∧ ∃ s ∈ l.seen, answer.Describes s.chain := by
  obtain ⟨s, hreach, -, -, hchain, -, -⟩ := reachable_of_valid validChain_spending.2 2
  obtain ⟨depth, hdurable⟩ := reachable_durable hreach
  rw [hchain] at hdurable
  have hread := LookupReachable.look (.done (some ⟨1, 0, ⟨0, some 1⟩⟩))
    (lookup_before_hash hreach hchain) rfl (by dsimp only; rw [hdurable.getLastBlockHash]; rfl)
  obtain ⟨txid, atTx, atBlock, atHeight, atHash, b, rest, -, hseen, -, -, -, hiff⟩ :=
    getTxBlock_describes_iff hread rfl
  obtain ⟨rfl, rfl, rfl, rfl⟩ : s = atTx ∧ s = atBlock ∧ s = atHeight ∧ s = atHash := by
    simpa using hseen
  exact ⟨_, _, hread, rfl, s, by simp, hiff.mpr ⟨rfl, rfl⟩⟩

/-- **A lookup can report no tip at all.** A flush between its last two reads pairs the height of one
commit with the hash of the next. -/
theorem getTxBlock_torn_tip : ∃ l answer, LookupReachable firstTxid l ∧
    l.left = .done (some answer) ∧ ∀ chain, ¬ answer.Describes chain := by
  obtain ⟨s, hreach, hphase, hstaged, hchain, -, -⟩ :=
    reachable_of_valid validChain_spending.2 2
  obtain ⟨depth, hinv⟩ := reachable_inv hreach
  have hvalid : ValidBlock s.full spendingBlock := by
    rw [Sys.full_of_staged_nil hstaged, hchain]
    exact validChain_spending.1
  obtain ⟨t₁, hrun₁, -, -, hinv₁⟩ := hinv.stage hphase hvalid
  obtain ⟨hash, t₂, hhash, hrun₂, -, -, -, hinv₂⟩ := hinv₁.flush hphase (List.cons_ne_nil _ _)
  have hread := ((lookup_before_hash hreach hchain).next (.loop (.stage hphase hvalid hrun₁))).next
    (.loop (.flush hphase (List.cons_ne_nil _ _) hhash hrun₂))
  have htip : t₂.db.getLastBlockHash = some 2 := by
    have hdurable := hinv₂.durable
    have hfull : (s.afterStage spendingBlock t₁).full = spendingBlock :: [firstBlock] := by
      simp [Sys.full, Sys.afterStage, hstaged, hchain]
    rw [hfull] at hdurable
    exact hdurable.getLastBlockHash
  have hlast := LookupReachable.look (.done (some ⟨1, 0, ⟨0, some 2⟩⟩)) hread rfl
    (by dsimp only; rw [htip])
  refine ⟨_, ⟨1, 0, ⟨0, some 2⟩⟩, hlast, rfl, fun chain hdescribes => ?_⟩
  obtain ⟨htip, b, rest, hat, -⟩ := hdescribes
  obtain ⟨hlength, hhead⟩ := CommittedTip.mk.inj htip
  rcases chain with _ | ⟨c, _ | ⟨d, below⟩⟩
  · cases hat
  · have hnamed : c.hash = 1 := by
      rw [blockAt] at hat
      split_ifs at hat with hsame
      · exact hsame
      · cases hat
    rw [List.head?_cons, Option.map_some, Option.some.injEq, hnamed] at hhead
    exact absurd hhead (by decide)
  · simp only [List.length_cons] at hlength
    omega

end Run

end UtxoTracker
