import UtxoTracker.Concurrency.ReadTokens
import UtxoTracker.Lib.Fallible
import UtxoTracker.Safety.AddressReads
import UtxoTracker.Safety.SeedDepth
/-!
# Equal tokens mean one snapshot, but for a relaunch

While the reorg count stands still the committed chain grows and then shrinks: a walk that deleted
a block is counted before the loop indexes again. Two chains of one height are then one chain, and
what a rollback of the blocks above it leaves is what was there before them. A relaunch empties the
mempool store and moves no token.
-/

namespace UtxoTracker

open Tracker Provenance

/-! ### The reorg count -/

namespace Tracker

variable {t t' : Tracker}

theorem reorgCount_recordReorg (t : Tracker) (w : Walk) :
    (t.recordReorg w).reorgCount = t.reorgCount ∧ w.blocksDeleted = [] ∨
      (t.recordReorg w).reorgCount = t.reorgCount + 1 := by
  unfold recordReorg
  split_ifs with hnone
  · exact Or.inl ⟨rfl, hnone⟩
  · exact Or.inr rfl

theorem reorgCount_countRefusedWalk (t : Tracker) (w : Walk) :
    (t.countRefusedWalk w.blocksDeleted.length).reorgCount = t.reorgCount ∧ w.blocksDeleted = [] ∨
      (t.countRefusedWalk w.blocksDeleted.length).reorgCount = t.reorgCount + 1 := by
  unfold countRefusedWalk
  split_ifs with hnone
  · exact Or.inl ⟨rfl, List.length_eq_zero_iff.mp hnone⟩
  · exact Or.inr rfl

end Tracker

/-! ### Growing, then shrinking -/

/-- A walk has taken a block away, or the loop has stopped. -/
def Falling (s : Sys) : Prop :=
  (∃ entry w, s.phase = .walking entry w ∧ w.blocksDeleted ≠ []) ∨ s.phase = .stopped

/-- What holds from `s` on while the reorg count stands still: the chain has grown to `top` and is
`top` as long as nothing falls, and the blocks of `s` that it still has come from where they did. -/
structure SameCount (s u : Sys) (top : Chain) : Prop where
  start : s.chain <:+ top
  now : u.chain <:+ top
  rising : ¬ Falling u → u.chain = top
  provenance : s.chain <:+ u.chain → u.provenance = s.provenance

theorem SameCount.refl (s : Sys) : SameCount s s s.chain :=
  ⟨List.suffix_rfl, List.suffix_rfl, fun _ => rfl, fun _ => rfl⟩

theorem not_falling_of_phase {s : Sys} {phase : Phase} (hphase : s.phase = phase)
    (hquiet : ∀ entry w, phase ≠ .walking entry w) (hlive : phase ≠ .stopped) : ¬ Falling s := by
  rintro (⟨entry, w, hwalking, -⟩ | hstopped)
  · exact hquiet entry w (hphase.symm.trans hwalking)
  · exact hlive (hphase.symm.trans hstopped)

/-- Rolling a block back that was indexed above `chain` changes nothing about where `chain` came
from. -/
theorem Provenance.unwind_eq {p : Provenance} {chain rest : Chain} {window : List Hash} {b : Block}
    (hfits : p.Fits chain window) (hvalid : ValidBlock rest b) (hsuffix : chain <:+ rest) :
    p.unwind b rest = p := by
  have hlength := hsuffix.length_le
  have hseeded : p.seeded ≤ rest.length := hfits.seeded_le.trans hlength
  have hlost : (p.unwind b rest).lost = p.lost := by
    ext o
    rw [mem_unwind_lost]
    constructor
    · rintro ⟨hlost | ⟨hbelow, -⟩, -⟩
      · exact hlost
      · omega
    · intro hlost
      refine ⟨Or.inl hlost, ?_⟩
      obtain ⟨out, hcreated, -⟩ := hfits.lost_created o hlost
      by_contra hagain
      have hfresh := hvalid.fresh (Option.isSome_iff_ne_none.mpr hagain)
      rw [everCreated_suffix hsuffix hfresh] at hcreated
      cases hcreated
  cases p
  simp only [unwind] at hlost ⊢
  rw [Nat.min_eq_left hseeded, hlost]

/-! ### One step -/

section Steps

variable {s s' : Sys} {depth : Nat}

/-- A step that leaves the chain alone. -/
theorem SameCount.congr {u u' : Sys} {top : Chain} (hsame : SameCount s u top)
    (hchain : u'.chain = u.chain) (hprovenance : u'.provenance = u.provenance)
    (hrising : ¬ Falling u' → u.chain = top) : SameCount s u' top where
  start := hsame.start
  now := hchain ▸ hsame.now
  rising := fun hup => hchain.trans (hrising hup)
  provenance := by
    intro hsuffix
    rw [hprovenance, hsame.provenance (hchain ▸ hsuffix)]

/-- **The step lemma**: while the reorg count stands still, a chain that began to fall falls on. -/
theorem SameCount.step {u u' : Sys} {top : Chain} {window : List Hash}
    (hfits : s.provenance.Fits s.chain window) (hsame : SameCount s u top) (hinv : InvAt u depth)
    (hstep : Step u u') (hprocess : InProcess u u')
    (hcount : u'.tracker.reorgCount = u.tracker.reorgCount) : ∃ top', SameCount s u' top' := by
  have hquiet : ∀ {phase : Phase}, u.phase = phase → (∀ entry w, phase ≠ .walking entry w) →
      phase ≠ .stopped → u.chain = top := fun hphase hquiet hlive =>
    hsame.rising (not_falling_of_phase hphase hquiet hlive)
  cases hstep with
  | stage hphase => exact ⟨top, hsame.congr rfl rfl fun _ => hquiet hphase (by simp) (by simp)⟩
  | stageFailed hphase =>
      exact ⟨top, hsame.congr rfl rfl fun _ => hquiet hphase (by simp) (by simp)⟩
  | flush hphase =>
      have htop := hquiet hphase (by simp) (by simp)
      have hgrown : u.chain <:+ u.full := List.suffix_append _ _
      have hstart : s.chain <:+ u.chain := by
        rw [htop]
        exact hsame.start
      refine ⟨u.full, hstart.trans hgrown, List.suffix_rfl, fun _ => rfl, fun _ => ?_⟩
      exact hsame.provenance hstart
  | cleanup hphase => exact ⟨top, hsame.congr rfl rfl fun _ => hquiet hphase (by simp) (by simp)⟩
  | mismatch hphase => exact ⟨top, hsame.congr rfl rfl fun _ => hquiet hphase (by simp) (by simp)⟩
  | tipBelow hphase => exact ⟨top, hsame.congr rfl rfl fun _ => hquiet hphase (by simp) (by simp)⟩
  | repair hphase => exact ⟨top, hsame.congr rfl rfl fun _ => hquiet hphase (by simp) (by simp)⟩
  | rollBackToNodeTip hphase =>
      exact ⟨top, hsame.congr rfl rfl fun _ => hquiet hphase (by simp) (by simp)⟩
  | @walkNext entry w w' answers t hphase hround =>
      have hcases := hinv.round hphase answers
      rw [hround] at hcases
      cases hcases with
      | again _ _ _ hdeleted _ =>
          rw [Sys.afterRound_of_same hdeleted]
          refine ⟨top, hsame.congr rfl rfl fun hup => hsame.rising ?_⟩
          rintro (⟨entry', w₁, hwalking, hfell⟩ | hstopped)
          · obtain ⟨rfl, rfl⟩ := Phase.walking.inj (hphase.symm.trans hwalking)
            exact hup (Or.inl ⟨entry, w', rfl, hdeleted ▸ hfell⟩)
          · rw [hphase] at hstopped
            cases hstopped
      | @rolledBack b rest _ _ _ hchain _ _ _ _ _ hdeleted _ =>
          rw [Sys.afterRound_of_deleted hchain hdeleted]
          have hshorter : rest <:+ u.chain := hchain ▸ List.suffix_cons b rest
          refine ⟨top, hsame.start, hshorter.trans hsame.now, fun hup => ?_, fun hsuffix => ?_⟩
          · refine absurd (Or.inl ⟨entry, w', rfl, ?_⟩) hup
            rw [hdeleted]
            exact List.append_ne_nil_of_right_ne_nil _ (List.cons_ne_nil _ _)
          · have hvalid := hinv.durable.valid
            rw [hchain] at hvalid
            have hbefore := hsame.provenance (List.IsSuffix.trans hsuffix hshorter)
            refine (congrArg (fun p => Provenance.unwind p b rest) hbefore).trans ?_
            exact Provenance.unwind_eq hfits hvalid.1 hsuffix
  | @walkReturned entry w w' answers t hphase hround =>
      have hcases := hinv.round hphase answers
      rw [hround] at hcases
      cases hcases with
      | agreed =>
          refine ⟨top, hsame.congr rfl rfl fun _ => hsame.rising ?_⟩
          rintro (⟨entry', w₁, hwalking, hfell⟩ | hstopped)
          · obtain ⟨rfl, rfl⟩ := Phase.walking.inj (hphase.symm.trans hwalking)
            rcases reorgCount_recordReorg u.tracker w with ⟨-, hnone⟩ | hnext
            · exact hfell hnone
            · exact Nat.succ_ne_self _ (hnext.symm.trans hcount)
          · rw [hphase] at hstopped
            cases hstopped
  | @walkRefused entry w w' answers t message hphase hround =>
      have hcases := hinv.round hphase answers
      rw [hround] at hcases
      cases hcases with
      | @threw σ' _ _ =>
          refine ⟨top, hsame.congr rfl rfl fun _ => hsame.rising ?_⟩
          rintro (⟨entry', w₁, hwalking, hfell⟩ | hstopped)
          · obtain ⟨rfl, rfl⟩ := Phase.walking.inj (hphase.symm.trans hwalking)
            rcases reorgCount_countRefusedWalk { u.tracker with db := σ' } w with
              ⟨-, hnone⟩ | hnext
            · exact hfell hnone
            · exact Nat.succ_ne_self _ (hnext.symm.trans hcount)
          · rw [hphase] at hstopped
            cases hstopped
  | walkFailed => exact ⟨top, hsame.congr rfl rfl fun hup => absurd (Or.inr rfl) hup⟩
  | finishMismatch hphase =>
      exact ⟨top, hsame.congr rfl rfl fun _ => hquiet hphase (by simp) (by simp)⟩
  | finishTipBelow hphase =>
      exact ⟨top, hsame.congr rfl rfl fun _ => hquiet hphase (by simp) (by simp)⟩
  | restart =>
      refine ⟨top, hsame.congr rfl rfl fun _ => hsame.rising ?_⟩
      rintro (⟨entry, w, hwalking, -⟩ | hstopped)
      · exact hprocess.noCrash (Or.inl ⟨entry, w, hwalking⟩) rfl
      · exact hprocess.noCrash (Or.inr hstopped) rfl

end Steps

/-! ### Runs -/

/-- What a run from `p` keeps as long as its tokens do not move. -/
structure SameTokens (p q : Process) : Prop where
  epoch : p.mempoolEpoch ≤ q.mempoolEpoch
  mempool : q.mempoolEpoch = p.mempoolEpoch → q.mempool = p.mempool
  count : q.mempoolEpoch = p.mempoolEpoch →
    p.sys.tracker.reorgCount ≤ q.sys.tracker.reorgCount
  chain : q.mempoolEpoch = p.mempoolEpoch →
    q.sys.tracker.reorgCount = p.sys.tracker.reorgCount → ∃ top, SameCount p.sys q.sys top

theorem InvAt.keepCounters {s : Sys} {depth : Nat} (hinv : InvAt s depth) (t : Tracker)
    (hphase : s.phase = .idle ∨ s.phase = .stopped) : InvAt (s.keepCounters t) depth := by
  refine ⟨hinv.durable, hinv.valid, hinv.fits, hinv.known, hinv.cache, hinv.wrote, ?_⟩
  have hloop := hinv.loop
  have hsame : (s.keepCounters t).phase = s.phase := rfl
  rw [LoopInv] at hloop ⊢
  rw [hsame]
  rcases hphase with hphase | hphase <;> rw [hphase] at hloop ⊢
  · obtain ⟨hcursor, hquantity, ⟨kept, hwindow, hkept⟩, hbatch⟩ := hloop
    refine ⟨⟨hcursor.index, hcursor.hash⟩, hquantity,
      ⟨kept, ⟨hwindow.le, hwindow.last, hwindow.aged⟩, hkept⟩, fun hstaged => ?_⟩
    exact ⟨(hbatch hstaged).staged, (hbatch hstaged).housekeeping⟩
  · exact ⟨hloop.staged, hloop.last⟩

theorem Reopened.inv {p : Process} {store : Sys} (hp : Inv p.sys) (hstore : Reopened p store) :
    Inv store := by
  rcases hstore with rfl | hreach
  · exact hp
  · exact Inv.reachable (fun _ => FromStore.inv) hreach

theorem Relaunch.inv {p q : Process} (hp : Inv p.sys) (hrelaunch : Relaunch p q) : Inv q.sys := by
  cases hrelaunch with
  | started _ hstore hrun =>
      obtain ⟨depth, hinv⟩ := hstore.inv hp
      exact ⟨depth, (hinv.restart hrun).keepCounters _ (Or.inl rfl)⟩
  | halted _ hstore hmarker =>
      obtain ⟨depth, hinv⟩ := hstore.inv hp
      exact ⟨depth, hinv.keepCounters _ (Or.inr hmarker)⟩

theorem Relaunch.tokens {p q : Process} (hrelaunch : Relaunch p q) :
    q.mempool = ∅ ∧ q.mempoolEpoch = p.mempoolEpoch ∧
      q.sys.tracker.reorgCount = p.sys.tracker.reorgCount := by
  cases hrelaunch <;> exact ⟨rfl, rfl, rfl⟩

theorem Relaunch.phase {p q : Process} (hrelaunch : Relaunch p q) :
    p.sys.phase = .idle ∨ p.sys.phase = .stopped := by
  cases hrelaunch <;> assumption

theorem RunningStep.inv {p q : Process} (hp : Inv p.sys) (hstep : RunningStep p q) :
    Inv q.sys := by
  cases hstep with
  | loop hstep => exact hp.step hstep
  | mempoolCommit => exact hp

theorem QuietStep.inv {p q : Process} (hp : Inv p.sys) (hstep : QuietStep p q) : Inv q.sys :=
  hstep.elim (·.inv hp) (·.1.inv hp)

theorem Launched.inv {p : Process} (hinit : Launched p) : Inv p.sys :=
  Inv.reachable (fun _ => FromStore.inv) hinit.2

theorem SameTokens.running {p q r : Process} (hp : Inv p.sys) (hq : Inv q.sys)
    (hsame : SameTokens p q) (hstep : RunningStep q r) : SameTokens p r := by
  obtain ⟨depth₀, hstart⟩ := hp
  obtain ⟨depth, hinv⟩ := hq
  cases hstep with
  | loop hstep hprocess =>
      refine ⟨hsame.epoch, hsame.mempool, fun hepoch => ?_, fun hepoch hcount => ?_⟩
      · exact (hsame.count hepoch).trans hprocess.count
      · have hbefore : q.sys.tracker.reorgCount = p.sys.tracker.reorgCount :=
          Nat.le_antisymm (hcount ▸ hprocess.count) (hsame.count hepoch)
        obtain ⟨top, htop⟩ := hsame.chain hepoch hbefore
        exact htop.step hstart.durable.fits hinv hstep hprocess (hcount.trans hbefore.symm)
  | mempoolCommit mempool =>
      have hmoved : q.mempoolEpoch + 1 ≠ p.mempoolEpoch := by
        have hepoch := hsame.epoch
        omega
      exact ⟨hsame.epoch.trans (Nat.le_succ _), fun h => absurd h hmoved,
        fun h => absurd h hmoved, fun h => absurd h hmoved⟩

/-- A relaunch that goes unnoticed. -/
theorem SameTokens.relaunched {p q r : Process} (hsame : SameTokens p q)
    (hrelaunch : Relaunch q r) (hquiet : Unnoticed q r) : SameTokens p r := by
  obtain ⟨hempty, hepoch', hcount'⟩ := hrelaunch.tokens
  refine ⟨hepoch' ▸ hsame.epoch, fun hepoch => ?_, fun hepoch => ?_, fun hepoch hcount => ?_⟩
  · rw [hempty, ← hquiet.mempool]
    exact hsame.mempool (hepoch'.symm.trans hepoch)
  · rw [hcount']
    exact hsame.count (hepoch'.symm.trans hepoch)
  · obtain ⟨top, htop⟩ := hsame.chain (hepoch'.symm.trans hepoch) (hcount'.symm.trans hcount)
    refine ⟨top, htop.congr hquiet.chain hquiet.provenance fun hup => ?_⟩
    rcases hrelaunch.phase with hidle | hstopped
    · exact htop.rising (not_falling_of_phase hidle (by simp) (by simp))
    · exact absurd (Or.inr (hquiet.failed hstopped)) hup

theorem SameTokens.run {p q : Process} (hp : Inv p.sys)
    (hrun : Relation.ReflTransGen QuietStep p q) : Inv q.sys ∧ SameTokens p q := by
  induction hrun with
  | refl => exact ⟨hp, le_rfl, fun _ => rfl, fun _ => le_rfl, fun _ _ => ⟨_, .refl _⟩⟩
  | tail _ hstep ih =>
      refine ⟨QuietStep.inv ih.1 hstep, ?_⟩
      rcases hstep with hrunning | ⟨hrelaunch, hquiet⟩
      · exact ih.2.running hp ih.1 hrunning
      · exact ih.2.relaunched hrelaunch hquiet

/-- Two stores of one chain with one tip hash have the same tip pointer. -/
theorem TipPointer.eq_of_hash {σ σ' : LevelUpStore} {chain : Chain} (htip : TipPointer σ.db chain)
    (htip' : TipPointer σ'.db chain) (hhash : σ'.getLastBlockHash = σ.getLastBlockHash) :
    σ'.db[Key.lastBlockHeight]? = σ.db[Key.lastBlockHeight]? ∧
      σ'.db[Key.lastBlockHash]? = σ.db[Key.lastBlockHash]? := by
  cases chain with
  | cons b rest => exact htip'.eq htip (List.cons_ne_nil b rest)
  | nil =>
      unfold LevelUpStore.getLastBlockHash at hhash
      rcases htip with ⟨hheight, hnone⟩ | ⟨hheight, hash, hsome⟩ <;>
        rcases htip' with ⟨hheight', hnone'⟩ | ⟨hheight', hash', hsome'⟩
      · exact ⟨hheight'.trans hheight.symm, hnone'.trans hnone.symm⟩
      · rw [hnone, hsome'] at hhash
        simp at hhash
      · rw [hsome, hnone'] at hhash
        simp at hhash
      · rw [hsome, hsome'] at hhash
        obtain rfl : hash' = hash := by simpa using hhash
        exact ⟨hheight'.trans hheight.symm, hsome'.trans hsome.symm⟩

/-- **Equal tokens mean one snapshot** over all that a tracker object does, as long as its relaunches
find the mempool store empty, put back a store of the same blocks and start no loop again that failed:
two states with the same height, tip hash, reorg count and mempool epoch have the same chain, and no
address read tells them apart. -/
theorem equal_tokens_one_snapshot {p q : Process}
    (hreach : Transition.Reachable Launched QuietStep p)
    (hrun : Relation.ReflTransGen QuietStep p q) (htokens : q.snapshot = p.snapshot) :
    q.sys.chain = p.sys.chain ∧ SameReads p.stores q.stores := by
  have hp : Inv p.sys := hreach.invariant (fun _ hinit => Launched.inv hinit)
    fun _ _ hinv hstep => QuietStep.inv hinv hstep
  obtain ⟨⟨depth', hinv'⟩, hsame⟩ := SameTokens.run hp hrun
  obtain ⟨depth, hinv⟩ := hp
  simp only [Process.snapshot, ReadSnapshot.mk.injEq] at htokens
  obtain ⟨hheight, hhash, hcount, hepoch, -⟩ := htokens
  obtain ⟨top, hrose⟩ := hsame.chain hepoch hcount
  have hchain : q.sys.chain = p.sys.chain := by
    rw [hinv'.durable.getLastBlockHeight, hinv.durable.getLastBlockHeight] at hheight
    have hlength : q.sys.chain.length = p.sys.chain.length := by omega
    exact (List.suffix_of_suffix_length_le hrose.now hrose.start hlength.le).eq_of_length hlength
  have hprovenance := hrose.provenance (hchain ▸ List.suffix_rfl)
  have hdurable' := hinv'.durable
  rw [hchain, hprovenance] at hdurable'
  have htip := TipPointer.eq_of_hash hinv.durable.tip hdurable'.tip hhash
  -- The records that reads look at do not depend on the window.
  have hindexed : ∀ k : Key, k.isMeta = false →
      p.sys.provenance.record p.sys.chain (windowOf p.sys.chain depth') k =
        p.sys.provenance.record p.sys.chain (windowOf p.sys.chain depth) k →
          q.sys.db[k]? = p.sys.db[k]? := by
    intro k hmeta hwindow
    rw [hdurable'.indexes k hmeta, hinv.durable.indexes k hmeta, hwindow]
  refine ⟨hchain, fun k hread => ?_, hsame.mempool hepoch⟩
  cases k with
  | lastBlockHeight => exact htip.1
  | lastBlockHash => exact htip.2
  | output script txid idx => exact hindexed _ rfl rfl
  | outHint txid idx => exact hindexed _ rfl rfl
  | scriptBlk script => exact hindexed _ rfl rfl
  | _ => cases hread

/-- The tokens of two objects over stores of one chain. -/
theorem snapshot_eq {p q : Process} (hp : Inv p.sys) (hq : Inv q.sys)
    (hchain : q.sys.chain = p.sys.chain) (hne : p.sys.chain ≠ [])
    (hcount : q.sys.tracker.reorgCount = p.sys.tracker.reorgCount)
    (hepoch : q.mempoolEpoch = p.mempoolEpoch) : q.snapshot = p.snapshot := by
  obtain ⟨depth, hinv⟩ := hp
  obtain ⟨depth', hinv'⟩ := hq
  obtain ⟨b, rest, hcons⟩ := List.exists_cons_of_ne_nil hne
  have hdurable := hinv.durable
  have hdurable' := hinv'.durable
  rw [hcons] at hdurable
  rw [hchain, hcons] at hdurable'
  simp only [Process.snapshot, hcount, hepoch, hdurable.getLastBlockHeight,
    hdurable'.getLastBlockHeight, hdurable.getLastBlockHash, hdurable'.getLastBlockHash]

/-- `getbootstrap` starts the object again on the store it closed. -/
theorem exists_relaunch {p : Process} (hp : Inv p.sys) (hphase : p.sys.phase = .idle) :
    ∃ q, Relaunch p q ∧ q.sys.chain = p.sys.chain ∧ q.sys.provenance = p.sys.provenance := by
  obtain ⟨depth, hinv⟩ := hp
  exact ⟨_, .started (Or.inl hphase) (Or.inl rfl) (hinv.durable.start _), rfl, rfl⟩

/-- An object over a store of two blocks, with some mempool store. -/
theorem exists_launched (mempool : Db) : ∃ p : Process, p.sys.chain = [spendingBlock, firstBlock] ∧
    p.sys.phase = .idle ∧ p.mempool = mempool ∧ Inv p.sys ∧
    Transition.Reachable Launched RunningStep p := by
  obtain ⟨s, hreach, hphase, -, hchain, -, -⟩ := reachable_of_valid validChain_spending 2
  have hreach := hreach.mono (fun _ hinit => (Or.inl hinit : FromStore _)) fun _ _ hstep => hstep
  have hlaunched : Launched ⟨s, ∅, 0⟩ := ⟨rfl, hreach⟩
  exact ⟨⟨s, mempool, 1⟩, hchain, hphase, rfl, hlaunched.inv,
    .next (.start hlaunched) (.mempoolCommit mempool)⟩

/-- A relaunch over an empty mempool store. -/
theorem equal_tokens_one_snapshot_relaunched : ∃ p q : Process,
    p.sys.chain = [spendingBlock, firstBlock] ∧ Relaunch p q ∧ q.sys.chain = p.sys.chain ∧
      SameReads p.stores q.stores := by
  obtain ⟨p, hchain, hphase, hempty, hinv, hreach⟩ := exists_launched ∅
  obtain ⟨q, hrelaunch, hsame, hprovenance⟩ := exists_relaunch hinv hphase
  obtain ⟨-, hepoch, hcount⟩ := hrelaunch.tokens
  have hquiet : Unnoticed p q := by
    refine ⟨hempty, hsame, hprovenance, fun hstopped => ?_⟩
    cases hphase.symm.trans hstopped
  have htokens : q.snapshot = p.snapshot :=
    snapshot_eq hinv (hrelaunch.inv hinv) hsame (hchain ▸ List.cons_ne_nil _ _) hcount hepoch
  obtain ⟨-, hreads⟩ := equal_tokens_one_snapshot (hreach.mono (fun _ hinit => hinit)
    fun _ _ => Or.inl) (.single (Or.inr ⟨hrelaunch, hquiet⟩)) htokens
  exact ⟨p, q, hchain, hrelaunch, hsame, hreads⟩

/-- An output of a mempool transaction. -/
def oneMempoolOutput : Db := (∅ : Db).insert (.output 7 2 0) (.output ⟨30, -1, 2, false⟩)

/-- **A relaunch moves no token** while it empties the mempool store. -/
theorem relaunch_keeps_tokens : ∃ p q : Process,
    Transition.Reachable Launched ProcessStep p ∧ Relation.ReflTransGen ProcessStep p q ∧
      q.snapshot = p.snapshot ∧ p.stores.mempool.db[Key.output 7 2 0]? ≠
        q.stores.mempool.db[Key.output 7 2 0]? := by
  obtain ⟨p, hchain, hphase, hmempool, hinv, hreach⟩ := exists_launched oneMempoolOutput
  obtain ⟨q, hrelaunch, hsame, -⟩ := exists_relaunch hinv hphase
  obtain ⟨hempty, hepoch, hcount⟩ := hrelaunch.tokens
  have htokens : q.snapshot = p.snapshot :=
    snapshot_eq hinv (hrelaunch.inv hinv) hsame (hchain ▸ List.cons_ne_nil _ _) hcount hepoch
  refine ⟨p, q, hreach.mono (fun _ hinit => hinit) fun _ _ => Or.inl, .single (Or.inr hrelaunch),
    htokens, ?_⟩
  have hbefore : p.stores.mempool.db[Key.output 7 2 0]? = some (.output ⟨30, -1, 2, false⟩) := by
    simp [Process.stores, LevelUpStore.createDatabase, hmempool, oneMempoolOutput]
  have hafter : q.stores.mempool.db[Key.output 7 2 0]? = none := by
    simp [Process.stores, LevelUpStore.createDatabase, hempty]
  rw [hbefore, hafter]
  exact Option.some_ne_none _

end UtxoTracker
