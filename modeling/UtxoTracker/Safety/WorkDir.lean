import UtxoTracker.Proof.WorkDir
import UtxoTracker.Safety.BulkSync
/-!
# What a resumed run loads

A kill leaves, of every range, the outputs first, then the spends, then the blocks. The merge checks
each stream alone. It is that of a fresh run over a part of the chain exactly when every range with
outputs has its blocks and one range starts at the genesis block.
-/

namespace UtxoTracker

open Bulk

namespace Bulk

/-- Two chunks are parsed at a time. The first one's worker is done when the run fails; the second
one's lives on and has closed no file. The next run skips the parse. -/
theorem exists_killed (network : Network) : ∃ s : BulkRun,
    Transition.Reachable BulkRun.Fresh (BulkStep network [spendingBlock, firstBlock]) s ∧
      s.phase = .merging [] ∧ s.dir.Found network [⟨0, [firstBlock]⟩] [⟨0, [firstBlock]⟩]
        [⟨0, [firstBlock]⟩] := by
  have hfirst : Dump.Of [spendingBlock, firstBlock] ⟨0, [firstBlock]⟩ := ⟨List.cons_ne_nil _ _, rfl⟩
  have hsecond : Dump.Of [spendingBlock, firstBlock] ⟨1, [spendingBlock]⟩ :=
    ⟨List.cons_ne_nil _ _, rfl⟩
  have hstart : Transition.Reachable BulkRun.Fresh
      (BulkStep network [spendingBlock, firstBlock]) ⟨.empty, .stopped, []⟩ := .start rfl
  have hdumped := (((hstart.next (.started false false rfl)).next
    (.dumpedChunk _ rfl hfirst)).next (.dumpedChunk _ rfl hsecond)).next (.dumped rfl)
  have hsecondAlone : ∀ worker ∈ [Worker.mk ⟨1, [spendingBlock]⟩ .outputs false],
      worker.dump ≠ ⟨0, [firstBlock]⟩ := by
    rw [List.forall_mem_singleton]
    intro heq
    cases congrArg Dump.firstHeight heq
  have hlaunched := (hdumped.next (.launched rfl List.mem_cons_self rfl
    fun _ hmem => absurd hmem List.not_mem_nil)).next
      (.launched rfl (List.mem_cons_of_mem _ List.mem_cons_self) rfl hsecondAlone)
  have hclosed := ((hlaunched.next (.closedOutputs List.mem_cons_self)).next
    (.closedSpends List.mem_cons_self)).next (.closedMeta rfl List.mem_cons_self)
  have hended := hclosed.next (.ended (List.Subset.refl _))
  refine ⟨_, hended.next (.started false true rfl), rfl, ?_⟩
  constructor
  · exact List.mergeSort_singleton _
  · exact List.mergeSort_singleton _
  · exact List.mergeSort_singleton _

end Bulk

end UtxoTracker
