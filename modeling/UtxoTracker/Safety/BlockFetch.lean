import Mathlib.Data.List.Induction
import Mathlib.Logic.Function.Basic
import UtxoTracker.Tracker.BlockFetch
/-!
# Which block a reassembly is for

A run of the block source, with a tally of the strip failures of each block beside it. A batch
fails as a whole, so the next block can be charged with the failure of another member; where it never
is, a block is reassembled only after that many failures of its own.
-/

namespace UtxoTracker

open BlockchainConnector

/-- A failed strip of the block at this height. -/
def FetchError.IsStripOf (height : Nat) (error : FetchError) : Prop :=
  ∃ message, error = .strip height message

/-- The block source, and how often the strip of each height's block failed since the last
successful fetch. -/
structure FetchRun where
  fetch : FetchState
  stripFailures : Nat → Nat

def newFetchRun : FetchRun := ⟨newFetchState, fun _ => 0⟩

/-- What touches the block source: a refill, the fetch of the next block, and a reorg. -/
inductive FetchEvent where
  | fill (fromHeight tipHeight : Nat) (reply : Except RpcError (Nat → BlockReply))
  | fetch (nextBlockHeight : Nat) (reply : DirectReply)
  | clearQueue

namespace FetchRun

variable (r : FetchRun)

/-- The tally with a failure in it. -/
def tally : FetchError → Nat → Nat
  | .rpc _ => r.stripFailures
  | .strip height _ => Function.update r.stripFailures height (r.stripFailures height + 1)

theorem le_tally (error : FetchError) (height : Nat) :
    r.stripFailures height ≤ r.tally error height := by
  cases error with
  | rpc error => exact Nat.le_refl _
  | strip failing message =>
      by_cases heq : height = failing
      · subst heq
        simp [tally]
      · simp [tally, heq]

theorem tally_of_isStripOf {error : FetchError} {height : Nat} (hown : error.IsStripOf height) :
    r.stripFailures height + 1 ≤ r.tally error height := by
  obtain ⟨message, rfl⟩ := hown
  simp [tally]

/-- The parse streak. -/
def parseStreak : Streak Nat := ⟨r.fetch.auxPowParseFailureHeight, r.fetch.auxPowParseFailures⟩

end FetchRun

namespace BlockFetcher

variable {τ : Type} (fetcher : BlockFetcher τ)

/-- The next state, `none` once the tracker has halted. -/
def after (r : FetchRun) : FetchEvent → Option FetchRun
  | .fill fromHeight tipHeight reply =>
      some { r with fetch := fetcher.fillPrefetchQueue r.fetch fromHeight tipHeight reply }
  | .fetch nextBlockHeight reply =>
      match fetcher.fetchNextBlock r.fetch nextBlockHeight reply with
      | .block s _ => some ⟨s, fun _ => 0⟩
      | .failed s error => some ⟨s, r.tally error⟩
      | .desync _ => none
  | .clearQueue => some { r with fetch := { r.fetch with prefetchQueue := [] } }

def run (events : List FetchEvent) : Option FetchRun := events.foldlM fetcher.after newFetchRun

/-- `P` at every fetch of the run. -/
def AtFetches (events : List FetchEvent) (P : FetchRun → Nat → DirectReply → Prop) : Prop :=
  ∀ (done : List FetchEvent) (height : Nat) (reply : DirectReply) (r : FetchRun),
    done ++ [.fetch height reply] <+: events → fetcher.run done = some r → P r height reply

/-- The failure moves the parse streak of this height up. -/
def Counts (s : FetchState) (height : Nat) (error : FetchError) : Prop :=
  (if s.auxPowParseFailureHeight = some height then s.auxPowParseFailures else 0) <
    (noteAuxPowParseFailure height s.auxPowParseFailureHeight s.auxPowParseFailures error).count

/-- What counts toward a height is a strip failure of its own block, and the block is reassembled
only after `AUXPOW_REASSEMBLE_AFTER` of them. -/
structure Attributed (r : FetchRun) (height : Nat) (reply : DirectReply) : Prop where
  own : ∀ error, fetcher.fetched height reply (fetcher.fetchPath r.fetch height) = .error error →
    Counts r.fetch height error → error.IsStripOf height
  afterFailures : fetcher.fetchPath r.fetch height = .reassembled →
    auxPowReassembleAfter ≤ r.stripFailures height

/-- A batch that the block is taken from did not fail on another member. -/
def OwnBatch (s : FetchState) (height : Nat) : Prop :=
  ∀ entry rest failing message, fetcher.fetchPath s height = .prefetched entry rest →
    entry.promise = .error (.strip failing message) → failing = height

/-! ### Failures of a block's own -/

theorem rpc_ne_strip {α : Type} (answer : Except RpcError α) (failing : Nat) (message : String) :
    rpc answer ≠ .error (.strip failing message) := by
  cases answer with
  | ok value => exact fun h => nomatch h
  | error error => exact fun h => nomatch h

/-- A failing chain of calls fails at its first call or after it. -/
theorem bind_eq_error {α β : Type} {call : Except FetchError α} {next : α → Except FetchError β}
    {error : FetchError} (hbind : (call >>= next) = .error error) :
    call = .error error ∨ ∃ value, call = .ok value ∧ next value = .error error := by
  cases call with
  | error fault =>
      cases hbind
      exact Or.inl rfl
  | ok value => exact Or.inr ⟨value, rfl, hbind⟩

theorem getBlockWithoutAuxPow_strip {height failing : Nat} {reply : DirectReply} {message : String}
    (hfetch : fetcher.getBlockWithoutAuxPow height reply = .error (.strip failing message)) :
    failing = height := by
  rcases bind_eq_error hfetch with hheader | ⟨header, -, hrest⟩
  · exact absurd hheader (rpc_ne_strip _ _ _)
  rcases bind_eq_error hrest with hblock | ⟨block, -, hstrip⟩
  · exact absurd hblock (rpc_ne_strip _ _ _)
  split at hstrip
  · cases hstrip
  · cases hstrip
    rfl

/-- Outside the queue only the block asked for can fail its strip. -/
theorem fetchBlock_strip {height failing : Nat} {reply : DirectReply} {message : String}
    (hfetch : fetcher.fetchBlock height reply = .error (.strip failing message)) :
    failing = height := by
  rcases bind_eq_error hfetch with hhash | ⟨hash, -, hrest⟩
  · exact absurd hhash (rpc_ne_strip _ _ _)
  rcases bind_eq_error hrest with hblock | ⟨hex, -, hdone⟩
  · unfold fetchBlockHex at hblock
    split_ifs at hblock
    · exact fetcher.getBlockWithoutAuxPow_strip hblock
    · exact absurd hblock (rpc_ne_strip _ _ _)
  · cases hdone

theorem fetchReassembled_ne_strip {reply : DirectReply} (failing : Nat) (message : String) :
    fetcher.fetchReassembled reply ≠ .error (.strip failing message) := by
  intro hfetch
  rcases bind_eq_error hfetch with hhash | ⟨hash, -, hrest⟩
  · exact absurd hhash (rpc_ne_strip _ _ _)
  rcases bind_eq_error hrest with hblock | ⟨hex, -, hdone⟩
  · exact absurd hblock (rpc_ne_strip _ _ _)
  · cases hdone

/-! ### The parse streak -/

theorem counts_iff (s : FetchState) (height : Nat) (error : FetchError) :
    Counts s height error ↔ error.auxPowParseFailure = true := by
  unfold Counts noteAuxPowParseFailure
  by_cases hheight : s.auxPowParseFailureHeight = some height <;>
    cases error.auxPowParseFailure <;> simp [hheight]

theorem noteAuxPowParseFailure_eq (height : Nat) (streakHeight : Option Nat) (streakCount : Nat)
    (error : FetchError) :
    noteAuxPowParseFailure height streakHeight streakCount error =
      (⟨streakHeight, streakCount⟩ : Streak Nat).note height error.auxPowParseFailure := by
  unfold noteAuxPowParseFailure Streak.note
  by_cases hheight : streakHeight = some height <;>
    cases error.auxPowParseFailure <;> simp [hheight]

/-- **One fetch**: what counts is the block's own failure exactly when its batch is. -/
theorem own_iff_ownBatch (s : FetchState) (height : Nat) (reply : DirectReply) :
    (∀ error, fetcher.fetched height reply (fetcher.fetchPath s height) = .error error →
      Counts s height error → error.IsStripOf height) ↔ fetcher.OwnBatch s height := by
  constructor
  · intro hown entry rest failing message hpath hpromise
    rw [hpath] at hown
    obtain ⟨message', hstrip⟩ := hown _ hpromise ((counts_iff s height _).mpr rfl)
    cases hstrip
    rfl
  · intro hbatch error herror hcounts
    rcases error with error | ⟨failing, message⟩
    · exact absurd ((counts_iff s height _).mp hcounts) (by simp [FetchError.auxPowParseFailure])
    refine ⟨message, ?_⟩
    rcases hpath : fetcher.fetchPath s height with _ | ⟨entry, rest⟩ | _
    · rw [hpath] at herror
      exact absurd herror (fetcher.fetchReassembled_ne_strip failing message)
    · rw [hpath] at herror
      rw [hbatch entry rest failing message hpath herror]
    · rw [hpath] at herror
      rw [fetcher.fetchBlock_strip herror]

/-! ### Runs -/

theorem parseStreak_fillPrefetchQueue (r : FetchRun) (fromHeight tipHeight : Nat)
    (reply : Except RpcError (Nat → BlockReply)) :
    FetchRun.parseStreak
        { r with fetch := fetcher.fillPrefetchQueue r.fetch fromHeight tipHeight reply } =
      r.parseStreak := by
  unfold fillPrefetchQueue
  simp only
  split_ifs <;> rfl

/-- The step lemma: a streak backed by the tally stays backed over a fetch that counts only the
block's own failures. -/
theorem after_fetch_backed {r r' : FetchRun} {height : Nat} {reply : DirectReply}
    (hbacked : r.parseStreak.BackedBy r.stripFailures) (hbatch : fetcher.OwnBatch r.fetch height)
    (hafter : fetcher.after r (.fetch height reply) = some r') :
    r'.parseStreak.BackedBy r'.stripFailures := by
  have hown := (fetcher.own_iff_ownBatch r.fetch height reply).mpr hbatch
  simp only [after, fetchNextBlock] at hafter
  rcases hfetched : fetcher.fetched height reply (fetcher.fetchPath r.fetch height)
    with error | fetched
  · rw [hfetched] at hafter
    simp only at hafter
    rcases hstreak : fetcher.noteBlockFetchFailure height r.fetch.blockFetchFailureHeight
      r.fetch.blockFetchFailures error with message | streak
    · rw [hstreak] at hafter
      cases hafter
    · rw [hstreak] at hafter
      cases hafter
      have hnote : (noteAuxPowParseFailure height r.fetch.auxPowParseFailureHeight
          r.fetch.auxPowParseFailures error).BackedBy (r.tally error) := by
        rw [noteAuxPowParseFailure_eq]
        refine Streak.BackedBy.note hbacked (r.le_tally error) fun htagged => ?_
        exact r.tally_of_isStripOf (hown error hfetched ((counts_iff _ _ _).mpr htagged))
      exact hnote
  · rw [hfetched] at hafter
    cases hafter
    exact Streak.backedBy_none _ _

theorem run_append_singleton {done : List FetchEvent} {event : FetchEvent} {r' : FetchRun}
    (hrun : fetcher.run (done ++ [event]) = some r') :
    ∃ r, fetcher.run done = some r ∧ fetcher.after r event = some r' := by
  unfold run at hrun ⊢
  rw [List.foldlM_append, Option.bind_eq_bind, Option.bind_eq_some_iff] at hrun
  obtain ⟨r, hdone, hlast⟩ := hrun
  rw [List.foldlM_cons, Option.bind_eq_bind, Option.bind_eq_some_iff] at hlast
  obtain ⟨next, hafter, hnil⟩ := hlast
  cases hnil
  exact ⟨r, hdone, hafter⟩

/-- The run lemma, by induction on the events done. -/
theorem run_backed {events : List FetchEvent}
    (hbatches : fetcher.AtFetches events fun r height _ => fetcher.OwnBatch r.fetch height)
    (done : List FetchEvent) (hdone : done <+: events) {r : FetchRun}
    (hrun : fetcher.run done = some r) : r.parseStreak.BackedBy r.stripFailures := by
  induction done using List.reverseRecOn generalizing r with
  | nil =>
      cases hrun
      exact Streak.backedBy_none _ _
  | append_singleton done event ih =>
      obtain ⟨before, hbefore, hafter⟩ := fetcher.run_append_singleton hrun
      have hbacked := ih ((List.prefix_append done [event]).trans hdone) hbefore
      cases event with
      | fill fromHeight tipHeight reply =>
          cases hafter
          rw [parseStreak_fillPrefetchQueue]
          exact hbacked
      | clearQueue =>
          cases hafter
          exact hbacked
      | fetch height reply =>
          exact fetcher.after_fetch_backed hbacked (hbatches done height reply before hdone hbefore)
            hafter

theorem streak_of_reassembled {s : FetchState} {height : Nat}
    (hpath : fetcher.fetchPath s height = .reassembled) :
    s.auxPowParseFailureHeight = some height ∧ auxPowReassembleAfter ≤ s.auxPowParseFailures := by
  unfold fetchPath at hpath
  split_ifs at hpath with hshould
  · simp only [shouldReassembleBlock, Bool.and_eq_true, decide_eq_true_eq] at hshould
    exact ⟨hshould.1.2, hshould.2⟩
  · split at hpath
    · split_ifs at hpath
    · cases hpath

/-- **Reassembly by run.** Everything charged to a height is its own block's, and every reassembly
comes after `AUXPOW_REASSEMBLE_AFTER` failures of the block itself, in exactly the runs where no
fetch waits on a batch that failed on another member. -/
theorem attributed_iff_ownBatch (events : List FetchEvent) :
    fetcher.AtFetches events fetcher.Attributed ↔
      fetcher.AtFetches events fun r height _ => fetcher.OwnBatch r.fetch height := by
  constructor
  · intro hattributed done height reply r hdone hrun
    exact (fetcher.own_iff_ownBatch r.fetch height reply).mp
      (hattributed done height reply r hdone hrun).own
  · intro hbatches done height reply r hdone hrun
    refine ⟨(fetcher.own_iff_ownBatch r.fetch height reply).mpr
      (hbatches done height reply r hdone hrun), fun hpath => ?_⟩
    obtain ⟨hheight, hcount⟩ := fetcher.streak_of_reassembled hpath
    have hbacked := fetcher.run_backed hbatches done
      ((List.prefix_append done _).trans hdone) hrun
    exact Nat.le_trans hcount (hbacked height hheight)

end BlockFetcher

/-! ### A healthy block reassembled -/

def mergeMinedFetcher : BlockFetcher Unit :=
  { auxPow := true
    bitcoinjs := ⟨fun _ => .error "not a block", fun _ => []⟩
    maxBlockFetchRetries := 20
    concurrency := 8 }

/-- Block 101 is merge-mined and ends with its header; the others are not merge-mined. -/
def cutShortAt101 (height : Nat) : BlockReply :=
  { hash := []
    header := List.replicate 160 '0'
    block := (if height = 101 then "00010000" else "00000000").toList ++ List.replicate 152 '0' }

def noReply : DirectReply :=
  { hash := .error { message := "no answer" }
    block := .error { message := "no answer" }
    source :=
      { getBlockHeader := .error { message := "no answer" }
        getBlockVerbose := .error { message := "no answer" }
        getRawTransaction := fun _ => .error { message := "no answer" } } }

/-- One pass at height 100, the node's tip at 101. -/
def passAt100 : List FetchEvent := [.fill 100 101 (.ok cutShortAt101), .fetch 100 noReply]

/-- What a run leaves of block 100: whether it is reassembled next, and its own failures. -/
def reportAt100 (r : FetchRun) : Bool × Nat :=
  (mergeMinedFetcher.shouldReassembleBlock 100 r.fetch.auxPowParseFailureHeight
    r.fetch.auxPowParseFailures, r.stripFailures 100)

theorem reassembly_of_healthyBlock :
    (mergeMinedFetcher.stripBatchMember 100 (cutShortAt101 100)).isOk = true ∧
    ((mergeMinedFetcher.run (List.replicate 5 passAt100).flatten).map reportAt100) =
      some (true, 0) ∧
    ¬mergeMinedFetcher.AtFetches (List.replicate 6 passAt100).flatten
      mergeMinedFetcher.Attributed := by
  have hreport : ((mergeMinedFetcher.run ((List.replicate 5 passAt100).flatten ++
      [.fill 100 101 (.ok cutShortAt101)])).map reportAt100) = some (true, 0) := by
    decide +kernel
  refine ⟨by decide +kernel, by decide +kernel, fun hattributed => ?_⟩
  obtain ⟨r, hrun, hr⟩ := Option.map_eq_some_iff.mp hreport
  obtain ⟨hshould, hfailures⟩ := Prod.mk.inj hr
  have hpath : mergeMinedFetcher.fetchPath r.fetch 100 = .reassembled := if_pos hshould
  have hafter := (hattributed _ 100 noReply r (List.prefix_refl _) hrun).afterFailures hpath
  rw [hfailures] at hafter
  exact absurd hafter (by decide)

end UtxoTracker
