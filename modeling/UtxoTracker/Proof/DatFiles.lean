import Mathlib.Data.List.Chain
import UtxoTracker.Bulk.DatFiles
/-!
# What the concatenation does to the files

Each step of the concatenation leaves every file but the temporary one alone, returns with what was
written or with less since a write came short, and throws only over a fault or an input that is not
admitted.
-/

namespace UtxoTracker.DatFiles

open Throwing ValueCodec

/-- No call throws, and every read gives something. -/
structure Faults.Quiet (faults : Faults) : Prop where
  returns : ∀ call, faults.fails call = false
  gives : ∀ call, 0 < faults.most call

variable {faults : Faults} {cuts : Cuts} {s s' : Disk} {path tmpPath : String}
  {file out : List UInt8}

/-- Only the count of the calls moved. -/
structure Same (s s' : Disk) : Prop where
  dir : s'.dir = s.dir
  torn : s'.torn = s.torn

theorem Same.trans {s'' : Disk} (hsecond : Same s' s'') (hfirst : Same s s') : Same s s'' :=
  ⟨hsecond.dir.trans hfirst.dir, hsecond.torn.trans hfirst.torn⟩

/-- Nothing changed, and a call threw or gave nothing. -/
def Interrupted (faults : Faults) (s : Disk) (_ : ConcatError) (s' : Disk) : Prop :=
  s'.dir = s.dir ∧ ¬faults.Quiet

theorem systemCall_spec : Ensures (systemCall faults) s (fun _ s' => Same s s')
    (Interrupted faults s) := by
  unfold Ensures systemCall
  dsimp only
  cases hfails : faults.fails s.calls with
  | true =>
      refine ⟨rfl, ?_⟩
      intro hquiet
      rw [hquiet.returns] at hfails
      cases hfails
  | false => exact ⟨rfl, rfl⟩

theorem contents_spec {throws : ConcatError → Disk → Prop} (hfile : s.dir path = some file) :
    Ensures (contents path) s (fun a s' => a = file ∧ s' = s) throws := by
  unfold Ensures contents
  rw [hfile]
  exact ⟨rfl, rfl⟩

theorem contents_missing {throws : ConcatError → Disk → Prop} (hmissing : s.dir path = none)
    (hthrows : ∀ e, throws e s) : Ensures (contents path) s (fun _ _ => False) throws := by
  unfold Ensures contents
  rw [hmissing]
  exact hthrows _

/-- The size of a file; without one or with a fault it throws. -/
theorem statSync_spec : Ensures (statSync faults path) s
    (fun size s' => Same s s' ∧ ∃ file, s.dir path = some file ∧ size = file.length)
    (fun _ s' => s'.dir = s.dir ∧ (faults.Quiet → s.dir path = none)) := by
  have hcall : Ensures (systemCall faults) s (fun _ s' => Same s s')
      (fun _ s' => s'.dir = s.dir ∧ (faults.Quiet → s.dir path = none)) := by
    apply systemCall_spec.mono (fun _ _ hsame => hsame)
    rintro e s' ⟨hsame, hfault⟩
    exact ⟨hsame, fun hquiet => absurd hquiet hfault⟩
  apply hcall.bind
  intro call s₁ hsame
  cases hpath : s.dir path with
  | none =>
      have hmissing : s₁.dir path = none := hsame.dir ▸ hpath
      apply (contents_missing hmissing fun _ => ⟨hsame.dir, fun _ => rfl⟩).bind
      rintro a s₂ ⟨⟩
  | some file =>
      have hfile : s₁.dir path = some file := hsame.dir ▸ hpath
      apply (contents_spec hfile).bind
      rintro a s₂ ⟨rfl, rfl⟩
      exact .pure ⟨hsame, a, rfl, rfl⟩

theorem openSync_spec (hfile : s.dir path = some file) : Ensures (openSync faults path) s
    (fun _ s' => Same s s') (Interrupted faults s) := by
  apply systemCall_spec.bind
  intro call s₁ hsame
  have hfile₁ : s₁.dir path = some file := hsame.dir ▸ hfile
  apply (contents_spec hfile₁).bind
  rintro a s₂ ⟨rfl, rfl⟩
  exact .pure hsame

/-- A read gives a start of what it was asked for, and something when there is no fault. -/
theorem readSync_spec (hfile : s.dir path = some file) (length position : Nat) :
    Ensures (readSync faults path length position) s
      (fun bytes s' => Same s s' ∧ ∃ n, bytes = (subarray file position length).take n ∧
        (faults.Quiet → 0 < n))
      (Interrupted faults s) := by
  apply systemCall_spec.bind
  intro call s₁ hsame
  have hfile₁ : s₁.dir path = some file := hsame.dir ▸ hfile
  apply (contents_spec hfile₁).bind
  rintro a s₂ ⟨rfl, rfl⟩
  exact .pure ⟨hsame, faults.most call, rfl, fun hquiet => hquiet.gives call⟩

theorem store_spec (path : String) (file : List UInt8) {throws : ConcatError → Disk → Prop} :
    Ensures (store path file) s
      (fun _ s' => s'.dir = Function.update s.dir path (some file) ∧ s'.torn = s.torn) throws := by
  unfold Ensures store
  exact ⟨rfl, rfl⟩

/-! ### Writes that come short -/

/-- Since `start` a write that came short left another file than the whole write would have. -/
structure Torn (cuts : Cuts) (start s : Disk) : Prop where
  grown : start.torn < s.torn
  cut : ∃ call, 0 < cuts call

theorem Torn.mono {start : Disk} (htorn : Torn cuts start s) (hle : s.torn ≤ s'.torn) :
    Torn cuts start s' := ⟨htorn.grown.trans_le hle, htorn.cut⟩

theorem not_torn_wholeWrites {start : Disk} : ¬Torn wholeWrites start s := by
  rintro ⟨-, call, hcut⟩
  exact absurd hcut (Nat.lt_irrefl 0)

theorem taken_of_whole {cut : Nat} {bytes : List UInt8} (hcut : cut = 0) :
    taken cut bytes = bytes := by
  subst hcut
  exact List.take_of_length_le (Nat.le_max_right _ _)

theorem taken_start (cut : Nat) (bytes : List UInt8) : taken cut bytes <+: bytes :=
  ⟨_, List.take_append_drop _ _⟩

/-- The file after a write is the whole write's, or the write came short. -/
theorem storeWrite_spec (path : String) (file whole : List UInt8)
    {throws : ConcatError → Disk → Prop} :
    Ensures (storeWrite path file whole) s
      (fun _ s' => s'.dir = Function.update s.dir path (some file) ∧
        (file = whole ∧ s'.torn = s.torn ∨ file ≠ whole ∧ s'.torn = s.torn + 1)) throws := by
  unfold Ensures storeWrite
  refine ⟨rfl, ?_⟩
  by_cases heq : file = whole
  · exact Or.inl ⟨heq, if_pos heq⟩
  · exact Or.inr ⟨heq, if_neg heq⟩

/-- What a write leaves: the file with all bytes, or another one since it came short. -/
def Wrote (cuts : Cuts) (tmpPath : String) (put : List UInt8 → List UInt8) (bytes : List UInt8)
    (s s' : Disk) : Prop :=
  ∃ took : List UInt8, took <+: bytes ∧
    s'.dir = Function.update s.dir tmpPath (some (put took)) ∧
    (put took = put bytes ∧ s'.torn = s.torn ∨ put took ≠ put bytes ∧ Torn cuts s s')

theorem wrote_of_storeWrite (put : List UInt8 → List UInt8) {bytes : List UInt8} {call : Nat}
    {s₁ : Disk} (hsame : Same s s₁)
    (hdir : s'.dir = Function.update s₁.dir tmpPath (some (put (taken (cuts call) bytes))))
    (htorn : put (taken (cuts call) bytes) = put bytes ∧ s'.torn = s₁.torn ∨
      put (taken (cuts call) bytes) ≠ put bytes ∧ s'.torn = s₁.torn + 1) :
    Wrote cuts tmpPath put bytes s s' := by
  refine ⟨taken (cuts call) bytes, taken_start _ _, hsame.dir ▸ hdir, ?_⟩
  rcases htorn with ⟨heq, htorn⟩ | ⟨hne, htorn⟩
  · exact Or.inl ⟨heq, htorn.trans hsame.torn⟩
  · refine Or.inr ⟨hne, ?_, call, ?_⟩
    · rw [htorn, hsame.torn]
      exact Nat.lt_succ_self _
    · by_contra hzero
      exact hne (congrArg put (taken_of_whole (by omega)))

theorem writeSync_spec (hout : s.dir tmpPath = some out) (bytes : List UInt8) :
    Ensures (writeSync faults cuts tmpPath bytes) s
      (fun _ s' => Wrote cuts tmpPath (out ++ ·) bytes s s') (Interrupted faults s) := by
  apply systemCall_spec.bind
  intro call s₁ hsame
  have hout₁ : s₁.dir tmpPath = some out := hsame.dir ▸ hout
  apply (contents_spec hout₁).bind
  rintro a s₂ ⟨rfl, rfl⟩
  apply (storeWrite_spec tmpPath _ _).bind
  rintro _ s₃ ⟨hdir, htorn⟩
  exact .pure (wrote_of_storeWrite (a ++ ·) hsame hdir htorn)

theorem pwriteSync_spec (hout : s.dir tmpPath = some out) (bytes : List UInt8) (position : Nat) :
    Ensures (pwriteSync faults cuts tmpPath bytes position) s
      (fun _ s' => Wrote cuts tmpPath (overwritten out position) bytes s s')
      (Interrupted faults s) := by
  apply systemCall_spec.bind
  intro call s₁ hsame
  have hout₁ : s₁.dir tmpPath = some out := hsame.dir ▸ hout
  apply (contents_spec hout₁).bind
  rintro a s₂ ⟨rfl, rfl⟩
  apply (storeWrite_spec tmpPath _ _).bind
  rintro _ s₃ ⟨hdir, htorn⟩
  exact .pure (wrote_of_storeWrite (overwritten a position) hsame hdir htorn)

/-- The file is `whole`, or shorter than it since a write came short. -/
def OrShorter (cuts : Cuts) (start : Disk) (whole out : List UInt8) (s : Disk) : Prop :=
  out = whole ∧ s.torn = start.torn ∨ out.length < whole.length ∧ Torn cuts start s

variable {start : Disk} {whole bytes : List UInt8}

theorem OrShorter.same (hwhole : OrShorter cuts start whole out s) (hsame : Same s s') :
    OrShorter cuts start whole out s' :=
  hwhole.imp (fun h => ⟨h.1, hsame.torn.trans h.2⟩) fun h => ⟨h.1, h.2.mono hsame.torn.ge⟩

/-- The temporary file holds `whole`, or is shorter than it since a write came short. -/
def Copied (cuts : Cuts) (start : Disk) (tmpPath : String) (whole : List UInt8) (s : Disk) : Prop :=
  ∃ out, s.dir tmpPath = some out ∧ OrShorter cuts start whole out s

theorem Copied.same (hcopied : Copied cuts start tmpPath whole s) (hsame : Same s s') :
    Copied cuts start tmpPath whole s' := by
  obtain ⟨out, hout, hwhole⟩ := hcopied
  exact ⟨out, hsame.dir ▸ hout, hwhole.same hsame⟩

/-- A write at the end. -/
theorem Copied.wrote (hwhole : OrShorter cuts start whole out s)
    (hwrote : Wrote cuts tmpPath (out ++ ·) bytes s s') :
    Copied cuts start tmpPath (whole ++ bytes) s' := by
  obtain ⟨took, htook, hdir, htorn⟩ := hwrote
  refine ⟨out ++ took, by rw [hdir, Function.update_self], ?_⟩
  rcases hwhole with ⟨rfl, hstart⟩ | ⟨hshort, hstart⟩
  · rcases htorn with ⟨heq, htorn⟩ | ⟨hne, htorn⟩
    · exact Or.inl ⟨heq, htorn.trans hstart⟩
    · refine Or.inr ⟨?_, hstart ▸ htorn.grown, htorn.cut⟩
      have hlt : took.length < bytes.length :=
        lt_of_le_of_ne htook.length_le fun hlength => hne (htook.eq_of_length hlength ▸ rfl)
      rw [List.length_append, List.length_append]
      omega
  · refine Or.inr ⟨?_, hstart.mono ?_⟩
    · have hle := htook.length_le
      rw [List.length_append, List.length_append]
      omega
    · rcases htorn with ⟨-, htorn⟩ | ⟨-, htorn⟩
      · exact htorn.ge
      · exact htorn.grown.le

/-! ### One input -/

/-- A read inside the file that gives nothing is a fault. -/
theorem read_ne_nil {length position n : Nat} (hlength : 0 < length)
    (hinside : position + length ≤ file.length) (hn : 0 < n) :
    (subarray file position length).take n ≠ [] := by
  apply List.ne_nil_of_length_pos
  rw [List.length_take, subarray, List.length_take, List.length_drop]
  omega

/-- What a read gives is what stands there, up to some length. -/
theorem read_eq (file : List UInt8) (length position n : Nat) :
    ∃ m ≤ length, (subarray file position length).take n = (file.drop position).take m ∧
      ((subarray file position length).take n).length = m := by
  refine ⟨((subarray file position length).take n).length, ?_, ?_, rfl⟩
  · rw [List.length_take, subarray, List.length_take]
    omega
  · rw [subarray, List.take_take, List.length_take, List.take_eq_take_iff]
    omega

/-- **The header loop reads the whole header**, or meets a fault or the end of the file. -/
theorem readHeaderFrom_spec {s : Disk} {short : Nat → String} {headerSize : Nat}
    {hdrBuf : List UInt8} (hfile : s.dir path = some file)
    (hdone : hdrBuf = file.take hdrBuf.length) (hle : hdrBuf.length ≤ headerSize) :
    Ensures (readHeaderFrom faults path short headerSize hdrBuf) s
      (fun hdr s' => Same s s' ∧ headerSize ≤ file.length ∧ hdr = file.take headerSize)
      (fun _ s' => s'.dir = s.dir ∧ (faults.Quiet → file.length < headerSize)) := by
  have hinside : hdrBuf.length ≤ file.length := by
    rw [hdone, List.length_take]
    exact Nat.min_le_right _ _
  rw [readHeaderFrom]
  by_cases hmore : hdrBuf.length < headerSize
  · rw [if_pos hmore]
    apply (readSync_spec hfile _ _).bind_mono
    · rintro e s₁ ⟨hsame, hfault⟩
      exact ⟨hsame, fun hquiet => absurd hquiet hfault⟩
    rintro bytes s₁ ⟨hsame, n, hbytes, hn⟩
    obtain ⟨m, hm, heq, hlength⟩ := read_eq file (headerSize - hdrBuf.length) hdrBuf.length n
    rw [← hbytes] at heq hlength
    by_cases hnil : bytes = []
    · rw [dif_pos hnil]
      refine .throw ⟨hsame.dir, ?_⟩
      intro hquiet
      by_contra hwhole
      exact read_ne_nil (by omega) (by omega) (hn hquiet) (hbytes ▸ hnil)
    · rw [dif_neg hnil]
      have hpos := List.length_pos_of_ne_nil hnil
      have hfile₁ : s₁.dir path = some file := hsame.dir ▸ hfile
      have hnext : (hdrBuf ++ bytes).length = hdrBuf.length + m := by
        rw [List.length_append, hlength]
      have hdone' : hdrBuf ++ bytes = file.take (hdrBuf ++ bytes).length := by
        rw [hnext, List.take_add, ← hdone, heq]
      apply (readHeaderFrom_spec hfile₁ hdone' (by omega)).mono
      · rintro hdr s₂ ⟨hsame₂, hhdr⟩
        exact ⟨hsame₂.trans hsame, hhdr⟩
      · rintro e s₂ ⟨hsame₂, hshort⟩
        exact ⟨hsame₂.trans hsame.dir, hshort⟩
  · rw [if_neg hmore]
    have hfull : hdrBuf.length = headerSize := by omega
    exact .pure ⟨⟨rfl, rfl⟩, by omega, hfull ▸ hdone⟩
termination_by headerSize - hdrBuf.length

/-- Only the temporary file changed. -/
def Scratched (tmpPath : String) (s s' : Disk) : Prop :=
  ∃ content, s'.dir = Function.update s.dir tmpPath (some content)

theorem Scratched.refl (hout : s.dir tmpPath = some out) (hsame : s'.dir = s.dir) :
    Scratched tmpPath s s' := by
  refine ⟨out, ?_⟩
  rw [hsame, ← hout, Function.update_eq_self]

theorem Scratched.trans {s₁ : Disk} (hfirst : Scratched tmpPath s s₁)
    (hsecond : Scratched tmpPath s₁ s') : Scratched tmpPath s s' := by
  obtain ⟨content, hfirst⟩ := hfirst
  obtain ⟨content', hsecond⟩ := hsecond
  refine ⟨content', ?_⟩
  rw [hsecond, hfirst, Function.update_idem]

/-- Files elsewhere stay while the temporary file is written. -/
theorem Scratched.same (hscratched : Scratched tmpPath s s') (hne : path ≠ tmpPath) :
    s'.dir path = s.dir path := by
  obtain ⟨content, hcontent⟩ := hscratched
  rw [hcontent, Function.update_of_ne hne]

theorem Wrote.scratched {put : List UInt8 → List UInt8} {bytes : List UInt8}
    (hwrote : Wrote cuts tmpPath put bytes s s') : Scratched tmpPath s s' := by
  obtain ⟨took, -, hdir, -⟩ := hwrote
  exact ⟨_, hdir⟩

/-- **The copy loop appends the rest of the input** or meets a fault. -/
theorem copyFrom_spec {s start : Disk} {whole : List UInt8} {pos written : Nat}
    (hfile : s.dir path = some file) (hne : path ≠ tmpPath)
    (hcopied : Copied cuts start tmpPath whole s) (hle : pos ≤ file.length) :
    Ensures (copyFrom faults cuts path tmpPath file.length pos written) s
      (fun n s' => Scratched tmpPath s s' ∧
        Copied cuts start tmpPath (whole ++ file.drop pos) s' ∧ n = written + (file.length - pos))
      (fun _ s' => Scratched tmpPath s s' ∧ ¬faults.Quiet) := by
  obtain ⟨out, hout, hwhole⟩ := hcopied
  rw [copyFrom]
  by_cases hmore : pos < file.length
  · rw [if_pos hmore]
    apply (readSync_spec hfile _ _).bind_mono
    · rintro e s₁ ⟨hsame, hfault⟩
      exact ⟨.refl hout hsame, hfault⟩
    · rintro bytes s₁ ⟨hsame, n, hbytes, hn⟩
      obtain ⟨m, hm, heq, hlength⟩ := read_eq file (min BUF_SIZE (file.length - pos)) pos n
      rw [← hbytes] at heq hlength
      have hsize : 0 < min BUF_SIZE (file.length - pos) := by
        have : 0 < BUF_SIZE := by decide
        omega
      by_cases hnil : bytes = []
      · rw [dif_pos hnil]
        refine .throw ⟨.refl hout hsame.dir, ?_⟩
        intro hquiet
        exact read_ne_nil hsize (by omega) (hn hquiet) (hbytes ▸ hnil)
      · rw [dif_neg hnil]
        have hpos := List.length_pos_of_ne_nil hnil
        have hout₁ : s₁.dir tmpPath = some out := hsame.dir ▸ hout
        apply (writeSync_spec hout₁ bytes).bind_mono
        · rintro e s₂ ⟨hsame₂, hfault⟩
          exact ⟨.refl hout (hsame₂.trans hsame.dir), hfault⟩
        · intro _ s₂ hwrote
          have hscratched : Scratched tmpPath s s₂ :=
            (Scratched.refl hout hsame.dir).trans hwrote.scratched
          have hcopied : Copied cuts start tmpPath (whole ++ bytes) s₂ :=
            .wrote (hwhole.same hsame) hwrote
          have hfile₂ : s₂.dir path = some file := (hscratched.same hne).trans hfile
          apply (copyFrom_spec hfile₂ hne hcopied (by omega)).mono
          · rintro k s₃ ⟨hscratched₃, hcopied₃, rfl⟩
            have hrest : bytes ++ file.drop (pos + bytes.length) = file.drop pos := by
              rw [hlength, ← List.drop_drop, heq, List.take_append_drop]
            rw [List.append_assoc, hrest] at hcopied₃
            exact ⟨hscratched.trans hscratched₃, hcopied₃, by omega⟩
          · rintro e s₃ ⟨hscratched₃, hfault⟩
            exact ⟨hscratched.trans hscratched₃, hfault⟩
  · have hend : pos = file.length := by omega
    rw [if_neg hmore, if_neg (not_not.mpr hend)]
    refine .pure ⟨.refl hout rfl, ?_, by omega⟩
    rw [hend, List.drop_length, List.append_nil]
    exact ⟨out, hout, hwhole⟩
termination_by file.length - pos

/-! ### The checks -/

theorem firstDifference_eq_none_iff {thisHdr firstHdr : ThisHdr} :
    firstDifference thisHdr firstHdr = none ↔ thisHdr = firstHdr := by
  unfold firstDifference
  split_ifs with hmagic hchain hnet hsize
  · exact iff_of_false not_false fun heq => hmagic (congrArg ThisHdr.magic heq)
  · exact iff_of_false not_false fun heq => hchain (congrArg ThisHdr.chain heq)
  · exact iff_of_false not_false fun heq => hnet (congrArg ThisHdr.net heq)
  · exact iff_of_false not_false fun heq => hsize (congrArg ThisHdr.recordSize heq)
  · apply iff_of_true rfl
    rw [ThisHdr.mk.injEq]
    exact ⟨not_not.mp hmagic, not_not.mp hchain, not_not.mp hnet, not_not.mp hsize⟩

/-- A header agrees with the first one, and its range follows the one before. -/
def Continues (firstHdr : Option ThisHdr) (prevLastHeight : Option Nat) (hdrBuf : List UInt8) :
    Prop :=
  ∀ first ∈ firstHdr, ThisHdr.ofHeader hdrBuf = first ∧
    ∀ last ∈ prevLastHeight, firstHeightOf hdrBuf = last + 1

theorem checkAgainst_ok_iff {firstHdr : Option ThisHdr} {prevLastHeight : Option Nat}
    {hdrBuf : List UInt8} : checkAgainst path (ThisHdr.ofHeader hdrBuf) (firstHeightOf hdrBuf)
      firstHdr prevLastHeight = .ok () ↔ Continues firstHdr prevLastHeight hdrBuf := by
  cases firstHdr with
  | none => exact iff_of_true rfl fun _ hmem => nomatch hmem
  | some first =>
      have hforall : Continues (some first) prevLastHeight hdrBuf ↔
          ThisHdr.ofHeader hdrBuf = first ∧
            ∀ last ∈ prevLastHeight, firstHeightOf hdrBuf = last + 1 := by
        constructor
        · intro hcontinues
          exact hcontinues first rfl
        · intro hfirst other hother
          rwa [← Option.some.inj hother]
      rw [hforall, ← firstDifference_eq_none_iff]
      unfold checkAgainst
      dsimp only
      cases hdiffer : firstDifference (ThisHdr.ofHeader hdrBuf) first with
      | some difference =>
          apply iff_of_false
          · intro hok
            cases hok
          · rintro ⟨hnone, -⟩
            cases hnone
      | none =>
          cases prevLastHeight with
          | none => exact iff_of_true rfl ⟨rfl, fun _ hmem => nomatch hmem⟩
          | some last =>
              dsimp only
              split_ifs with hgap
              · apply iff_of_false
                · intro hok
                  cases hok
                · rintro ⟨-, hnext⟩
                  exact hgap (hnext last rfl)
              · apply iff_of_true rfl
                refine ⟨rfl, ?_⟩
                intro other hother
                rw [← Option.some.inj hother]
                exact not_not.mp hgap

/-- **What an input must be** after the first header and the last height before it. -/
structure Admits (headerSize : Nat) (firstHdr : Option ThisHdr) (prevLastHeight : Option Nat)
    (file : List UInt8) : Prop where
  whole : headerSize ≤ file.length
  empty : recordCountOf (file.take headerSize) = 0 → file.length = headerSize
  continues : Continues firstHdr prevLastHeight (file.take headerSize)

theorem checkInputHeader_ok_iff {headerSize : Nat} {firstHdr : Option ThisHdr}
    {prevLastHeight : Option Nat} (hwhole : headerSize ≤ file.length) :
    checkInputHeader (file.take headerSize) path file.length headerSize firstHdr prevLastHeight =
      .ok () ↔ Admits headerSize firstHdr prevLastHeight file := by
  unfold checkInputHeader
  split_ifs with hcrashed
  · apply iff_of_false
    · intro hok
      cases hok
    · intro hadmits
      exact hcrashed.2 (hadmits.empty hcrashed.1)
  · rw [checkAgainst_ok_iff]
    constructor
    · intro hcontinues
      refine ⟨hwhole, ?_, hcontinues⟩
      intro hzero
      by_contra hne
      exact hcrashed ⟨hzero, hne⟩
    · exact Admits.continues

variable {headerSize i : Nat} {totals : Totals}

theorem readInputHeader_spec (hfile : s.dir path = some file) :
    Ensures (readInputHeader faults headerSize path file.length) s
      (fun hdr s' => Same s s' ∧ headerSize ≤ file.length ∧ hdr = file.take headerSize)
      (fun _ s' => s'.dir = s.dir ∧ (faults.Quiet → file.length < headerSize)) := by
  unfold readInputHeader
  split_ifs with hshort
  · exact .throw ⟨rfl, fun _ => hshort⟩
  · exact readHeaderFrom_spec hfile rfl (Nat.zero_le _)

theorem lift_checkInputHeader_spec (hwhole : headerSize ≤ file.length) :
    Ensures (lift (checkInputHeader (file.take headerSize) path file.length headerSize
        totals.firstHdr totals.prevLastHeight) : Program Unit) s
      (fun _ s' => s' = s ∧ Admits headerSize totals.firstHdr totals.prevLastHeight file)
      (fun _ s' => s' = s ∧ ¬Admits headerSize totals.firstHdr totals.prevLastHeight file) := by
  apply Ensures.lift
  · rintro ⟨⟩ hok
    exact ⟨rfl, (checkInputHeader_ok_iff hwhole).mp hok⟩
  · intro e herror
    refine ⟨rfl, ?_⟩
    intro hadmits
    rw [(checkInputHeader_ok_iff hwhole).mpr hadmits] at herror
    cases herror

/-- Where the copy of the `i`-th input starts. -/
def startOf (headerSize i : Nat) : Nat := if i = 0 then 0 else headerSize

theorem startOf_le (hwhole : headerSize ≤ file.length) : startOf headerSize i ≤ file.length := by
  unfold startOf
  split_ifs
  · exact Nat.zero_le _
  · exact hwhole

/-- Only the temporary file changed, and without a fault there is no input that is admitted. -/
def Refused (faults : Faults) (headerSize : Nat) (tmpPath path : String) (totals : Totals)
    (s : Disk) (_ : ConcatError) (s' : Disk) : Prop :=
  Scratched tmpPath s s' ∧ (faults.Quiet → ¬∃ file, s.dir path = some file ∧
    Admits headerSize totals.firstHdr totals.prevLastHeight file)

theorem Refused.of_fault (e : ConcatError) (hscratched : Scratched tmpPath s s')
    (hfault : ¬faults.Quiet) : Refused faults headerSize tmpPath path totals s e s' :=
  ⟨hscratched, fun hquiet => absurd hquiet hfault⟩

theorem Refused.of_not_admits (e : ConcatError) (hfile : s.dir path = some file)
    (hscratched : Scratched tmpPath s s')
    (hnot : faults.Quiet → ¬Admits headerSize totals.firstHdr totals.prevLastHeight file) :
    Refused faults headerSize tmpPath path totals s e s' := by
  refine ⟨hscratched, ?_⟩
  rintro hquiet ⟨other, hother, hadmits⟩
  rw [hfile, Option.some.injEq] at hother
  exact hnot hquiet (hother ▸ hadmits)

/-- **One input**: it is admitted and appended, or the program throws over a fault or an input that
is not there or not admitted. -/
theorem concatInput_spec (hne : path ≠ tmpPath) (hcopied : Copied cuts start tmpPath whole s) :
    Ensures (concatInput faults cuts headerSize tmpPath i path totals) s
      (fun totals' s' => ∃ file, s.dir path = some file ∧
        Admits headerSize totals.firstHdr totals.prevLastHeight file ∧ Scratched tmpPath s s' ∧
        Copied cuts start tmpPath (whole ++ file.drop (startOf headerSize i)) s' ∧
        totals' = totals.add (file.take headerSize) (file.length - startOf headerSize i))
      (Refused faults headerSize tmpPath path totals s) := by
  have hback {s' : Disk} (hsame : s'.dir = s.dir) : Scratched tmpPath s s' := by
    obtain ⟨out, hout, -⟩ := hcopied
    exact .refl hout hsame
  apply statSync_spec.bind_mono
  · rintro e s₁ ⟨hsame, hmissing⟩
    refine ⟨hback hsame, ?_⟩
    rintro hquiet ⟨file, hfile, -⟩
    rw [hmissing hquiet] at hfile
    cases hfile
  rintro size s₁ ⟨hsame₁, file, hfile, rfl⟩
  have hfile₁ : s₁.dir path = some file := hsame₁.dir ▸ hfile
  apply (openSync_spec hfile₁).bind_mono
  · rintro e s₂ ⟨hsame, hfault⟩
    exact .of_fault e (hback (hsame.trans hsame₁.dir)) hfault
  intro _ s₂ hsame
  have hsame₂ : Same s s₂ := hsame.trans hsame₁
  have hfile₂ : s₂.dir path = some file := hsame₂.dir ▸ hfile
  apply (readInputHeader_spec hfile₂).bind_mono
  · rintro e s₃ ⟨hsame, hshort⟩
    apply Refused.of_not_admits e hfile (hback (hsame.trans hsame₂.dir))
    intro hquiet hadmits
    exact Nat.not_lt_of_le hadmits.whole (hshort hquiet)
  rintro hdr s₃ ⟨hsame, hwhole, rfl⟩
  have hsame₃ : Same s s₃ := hsame.trans hsame₂
  apply (lift_checkInputHeader_spec hwhole).bind_mono
  · rintro e s₄ ⟨rfl, hnot⟩
    exact .of_not_admits e hfile (hback hsame₃.dir) fun _ => hnot
  rintro _ s₄ ⟨rfl, hadmits⟩
  have hfile₄ : s₄.dir path = some file := hsame₃.dir ▸ hfile
  apply (copyFrom_spec hfile₄ hne (hcopied.same hsame₃) (startOf_le hwhole)).bind_mono
  · rintro e s₅ ⟨⟨content, hcontent⟩, hfault⟩
    exact .of_fault e ⟨content, hsame₃.dir ▸ hcontent⟩ hfault
  rintro n s₅ ⟨⟨content, hcontent⟩, hcopied₅, rfl⟩
  refine .pure ⟨file, hfile, hadmits, ⟨content, hsame₃.dir ▸ hcontent⟩, hcopied₅, ?_⟩
  rw [Nat.zero_add]

/-! ### All inputs -/

/-- Every input is admitted after those before it. -/
def AdmitsAll (headerSize : Nat) : Option ThisHdr → Option Nat → List (List UInt8) → Prop
  | _, _, [] => True
  | firstHdr, prevLastHeight, file :: rest =>
      Admits headerSize firstHdr prevLastHeight file ∧
        AdmitsAll headerSize (some (firstHdr.getD (ThisHdr.ofHeader (file.take headerSize))))
          (some (lastHeightOf (file.take headerSize))) rest

/-- The variables after the inputs. -/
def Totals.addAll (headerSize : Nat) : Nat → Totals → List (List UInt8) → Totals
  | _, totals, [] => totals
  | i, totals, file :: rest =>
      Totals.addAll headerSize (i + 1)
        (totals.add (file.take headerSize) (file.length - startOf headerSize i)) rest

/-- What is copied of the inputs. -/
def copied (headerSize : Nat) : Nat → List (List UInt8) → List UInt8
  | _, [] => []
  | i, file :: rest => file.drop (startOf headerSize i) ++ copied headerSize (i + 1) rest

/-- The inputs' contents. -/
def Holds (s : Disk) (paths : List String) (files : List (List UInt8)) : Prop :=
  List.Forall₂ (fun path file => s.dir path = some file) paths files

variable {paths : List String} {files : List (List UInt8)}

theorem Holds.congr (hholds : Holds s paths files)
    (hsame : ∀ path ∈ paths, s'.dir path = s.dir path) : Holds s' paths files := by
  induction hholds with
  | nil => exact .nil
  | @cons path file paths files hfile _ ih =>
      refine .cons ((hsame path List.mem_cons_self).trans hfile) (ih ?_)
      intro other hmem
      exact hsame other (List.mem_cons_of_mem _ hmem)

theorem Holds.nonempty (hholds : Holds s paths files) (hne : paths ≠ []) : files ≠ [] := by
  rintro rfl
  cases hholds
  exact hne rfl

theorem Holds.unique {files' : List (List UInt8)} (hholds : Holds s paths files)
    (hholds' : Holds s paths files') : files = files' := by
  induction hholds generalizing files' with
  | nil =>
      cases hholds'
      rfl
  | cons hfile _ ih =>
      cases hholds' with
      | cons hfile' hrest' =>
          rw [hfile, Option.some.injEq] at hfile'
          rw [hfile', ih hrest']

theorem concatInputs_spec {s : Disk} {whole : List UInt8} {i : Nat} {totals : Totals}
    (hne : ∀ path ∈ paths, path ≠ tmpPath) (hcopied : Copied cuts start tmpPath whole s) :
    Ensures (concatInputs faults cuts headerSize tmpPath i paths totals) s
      (fun totals' s' => ∃ files, Holds s paths files ∧
        AdmitsAll headerSize totals.firstHdr totals.prevLastHeight files ∧ Scratched tmpPath s s' ∧
        Copied cuts start tmpPath (whole ++ copied headerSize i files) s' ∧
        totals' = totals.addAll headerSize i files)
      (fun _ s' => Scratched tmpPath s s' ∧ (faults.Quiet → ¬∃ files, Holds s paths files ∧
        AdmitsAll headerSize totals.firstHdr totals.prevLastHeight files)) := by
  induction paths generalizing s whole i totals with
  | nil =>
      obtain ⟨out, hout, hwhole⟩ := hcopied
      refine .pure ⟨[], .nil, trivial, .refl hout rfl, ?_, rfl⟩
      rw [copied, List.append_nil]
      exact ⟨out, hout, hwhole⟩
  | cons path rest ih =>
      obtain ⟨hpath, hrest⟩ := List.forall_mem_cons.mp hne
      apply (concatInput_spec hpath hcopied).bind_mono
      · rintro e s₁ ⟨hscratched, hnot⟩
        refine ⟨hscratched, ?_⟩
        rintro hquiet ⟨_, hholds, hall⟩
        cases hholds with
        | cons hfile _ => exact hnot hquiet ⟨_, hfile, hall.1⟩
      rintro totals₁ s₁ ⟨file, hfile, hadmits, hscratched, hcopied₁, rfl⟩
      apply (ih hrest hcopied₁).mono
      · rintro totals₂ s₂ ⟨files, hholds, hall, hscratched₂, hcopied₂, rfl⟩
        have hholds' : Holds s rest files := hholds.congr fun other hmem =>
          (hscratched.same (hrest other hmem)).symm
        rw [List.append_assoc] at hcopied₂
        exact ⟨file :: files, .cons hfile hholds', ⟨hadmits, hall⟩, hscratched.trans hscratched₂,
          hcopied₂, rfl⟩
      · rintro e s₂ ⟨hscratched₂, hnot⟩
        refine ⟨hscratched.trans hscratched₂, ?_⟩
        rintro hquiet ⟨_, hholds, hall⟩
        cases hholds with
        | cons hfile' hholds' =>
            rw [hfile, Option.some.injEq] at hfile'
            obtain rfl := hfile'
            refine hnot hquiet ⟨_, Holds.congr hholds' ?_, hall.2⟩
            intro other hmem
            exact hscratched.same (hrest other hmem)

/-- Writing inside a buffer keeps its length. -/
theorem length_writeAt {buf : List UInt8} {offset n : Nat} (hlength : buf.length = n)
    (hoffset : offset ≤ n) (bytes : List UInt8) : (writeAt buf offset bytes).length = n := by
  rw [writeAt, List.length_append, List.length_append, List.length_take, List.length_take,
    List.length_drop]
  omega

/-- The output with the summed count and the last height in its header. -/
def patched (out : List UInt8) (maxLastHeight recordCount : Nat) : List UInt8 :=
  writeAt (writeAt out 16 (ByteString.toLE 4 maxLastHeight)) 20 (ByteString.toLE 8 recordCount)

/-! ### The patches -/

section Overwritten

variable {position n : Nat}

theorem overwritten_of_le (hposition : position ≤ out.length) :
    overwritten out position bytes =
      out.take position ++ bytes ++ out.drop (position + bytes.length) := by
  rw [overwritten, Nat.sub_eq_zero_of_le hposition]
  exact congrArg (·.take position ++ bytes ++ _) (List.append_nil out)

theorem overwritten_inside (hinside : position + bytes.length ≤ out.length) :
    overwritten out position bytes = writeAt out position bytes := by
  rw [overwritten_of_le (by omega), writeAt, List.take_of_length_le (by omega : bytes.length ≤ _)]

theorem length_overwritten_le (out bytes : List UInt8) (position : Nat) :
    (overwritten out position bytes).length ≤ max out.length (position + bytes.length) := by
  simp only [overwritten, List.length_append, List.length_take, List.length_drop, alloc,
    List.length_replicate]
  omega

theorem take_overwritten (hn : n ≤ position) (hposition : position ≤ out.length) :
    (overwritten out position bytes).take n = out.take n := by
  have hlength : n ≤ (out.take position).length := by
    rw [List.length_take]
    omega
  rw [overwritten_of_le hposition, List.append_assoc, List.take_append_of_le_length hlength,
    List.take_take, Nat.min_eq_left hn]

theorem drop_overwritten (hn : bytes.length ≤ n) (hposition : position ≤ out.length) :
    (overwritten out position bytes).drop (position + n) = out.drop (position + n) := by
  have hlength : (out.take position ++ bytes).length = position + bytes.length := by
    rw [List.length_append, List.length_take, Nat.min_eq_left hposition]
  rw [overwritten_of_le hposition, List.drop_append, List.drop_of_length_le (by omega), hlength,
    List.drop_drop, List.nil_append]
  congr 1
  omega

end Overwritten

/-- The file is `whole`, or since a write came short it is shorter or differs in its first bytes. -/
def OrDamaged (cuts : Cuts) (start : Disk) (n : Nat) (whole out : List UInt8) (s : Disk) : Prop :=
  out = whole ∧ s.torn = start.torn ∨
    (out.length < whole.length ∨ out.take n ≠ whole.take n) ∧ Torn cuts start s

/-- **A write inside the file** keeps the damage, and its own coming short shows in what it covers. -/
theorem OrDamaged.pwrite {n position : Nat} (hn : n ≤ position)
    (hinside : position + bytes.length < whole.length) (hwhole : OrDamaged cuts start n whole out s)
    (hwrote : Wrote cuts tmpPath (overwritten out position) bytes s s') :
    ∃ out', s'.dir tmpPath = some out' ∧
      OrDamaged cuts start (position + bytes.length) (writeAt whole position bytes) out' s' := by
  obtain ⟨took, htook, hdir, htorn⟩ := hwrote
  have hle : took.length ≤ bytes.length := htook.length_le
  have hlength : (writeAt whole position bytes).length = whole.length :=
    length_writeAt rfl (by omega) _
  have hput : overwritten whole position bytes = writeAt whole position bytes :=
    overwritten_inside hinside.le
  refine ⟨overwritten out position took, by rw [hdir, Function.update_self], ?_⟩
  rcases hwhole with ⟨rfl, hstart⟩ | ⟨hdamaged, hstart⟩
  · rcases htorn with ⟨heq, htorn⟩ | ⟨hne, htorn⟩
    · exact Or.inl ⟨heq.trans hput, htorn.trans hstart⟩
    · refine Or.inr ⟨Or.inr fun htake => hne ?_, hstart ▸ htorn.grown, htorn.cut⟩
      rw [← hput] at htake
      have hdrop : (overwritten out position took).drop (position + bytes.length) =
          (overwritten out position bytes).drop (position + bytes.length) :=
        (drop_overwritten hle (by omega)).trans (drop_overwritten le_rfl (by omega)).symm
      rw [← List.take_append_drop (position + bytes.length) (overwritten out position took), htake,
        hdrop, List.take_append_drop]
  · have hgrown : Torn cuts start s' := hstart.mono (by
      rcases htorn with ⟨-, htorn⟩ | ⟨-, htorn⟩
      · exact htorn.ge
      · exact htorn.grown.le)
    refine Or.inr ⟨?_, hgrown⟩
    by_cases hshort : out.length < whole.length
    · left
      have hmax := length_overwritten_le out took position
      rw [hlength]
      omega
    · right
      intro htake
      apply hdamaged.resolve_left hshort
      have hfirst := congrArg (List.take n) htake
      rwa [List.take_take, List.take_take, Nat.min_eq_left (by omega), ← hput,
        take_overwritten hn (by omega), take_overwritten hn (by omega)] at hfirst

theorem OrDamaged.ne {n : Nat} (hwhole : OrDamaged cuts start n whole out s) :
    out = whole ∧ s.torn = start.torn ∨ out ≠ whole ∧ Torn cuts start s := by
  refine hwhole.imp_right ?_
  rintro ⟨hshort | htake, htorn⟩
  · exact ⟨fun heq => absurd (heq ▸ hshort) (Nat.lt_irrefl _), htorn⟩
  · exact ⟨fun heq => htake (heq ▸ rfl), htorn⟩

/-- What stands at a path: `whole`, or something else since a write came short. -/
def OrTorn (cuts : Cuts) (start : Disk) (path : String) (whole : List UInt8) (s : Disk) : Prop :=
  ∃ out, s.dir path = some out ∧
    (out = whole ∧ s.torn = start.torn ∨ out ≠ whole ∧ Torn cuts start s)

theorem OrTorn.same (horTorn : OrTorn cuts start path whole s) (hsame : Same s s') :
    OrTorn cuts start path whole s' := by
  obtain ⟨out, hout, hwhole⟩ := horTorn
  refine ⟨out, hsame.dir ▸ hout, hwhole.imp (fun h => ⟨h.1, hsame.torn.trans h.2⟩) fun h => ?_⟩
  exact ⟨h.1, h.2.mono hsame.torn.ge⟩

theorem patchOutputHeader_spec {maxLastHeight recordCount : Nat}
    (hcopied : Copied cuts start tmpPath whole s) (hsize : 28 < whole.length) :
    Ensures (patchOutputHeader faults cuts tmpPath maxLastHeight recordCount) s
      (fun _ s' => recordCount < 2 ^ 64 ∧ Scratched tmpPath s s' ∧
        OrTorn cuts start tmpPath (patched whole maxLastHeight recordCount) s')
      (fun _ s' => Scratched tmpPath s s' ∧ (faults.Quiet → 2 ^ 64 ≤ recordCount)) := by
  obtain ⟨out, hout, hwhole⟩ := hcopied
  have hfour : (ByteString.toLE 4 maxLastHeight).length = 4 := ByteString.length_toLE 4 _
  have height : (ByteString.toLE 8 recordCount).length = 8 := ByteString.length_toLE 8 _
  have hfault : ∀ s', Scratched tmpPath s s' → ¬faults.Quiet →
      Scratched tmpPath s s' ∧ (faults.Quiet → 2 ^ 64 ≤ recordCount) :=
    fun s' hscratched hfault => ⟨hscratched, fun hquiet => absurd hquiet hfault⟩
  apply (pwriteSync_spec hout _ _).bind_mono
  · rintro e s₁ ⟨hsame, hinterrupted⟩
    exact hfault s₁ (.refl hout hsame) hinterrupted
  intro _ s₁ hwrote
  have hscratched : Scratched tmpPath s s₁ := hwrote.scratched
  have hdamaged : OrDamaged cuts start 0 whole out s := hwhole.imp_right fun h => ⟨Or.inl h.1, h.2⟩
  obtain ⟨out₁, hout₁, hdamaged₁⟩ := hdamaged.pwrite (Nat.zero_le 16) (by omega) hwrote
  have hpatch : Ensures (lift (bigUInt64LE recordCount) : Program (List UInt8)) s₁
      (fun patch s' => s' = s₁ ∧ recordCount < 2 ^ 64 ∧ patch = ByteString.toLE 8 recordCount)
      (fun _ s' => s' = s₁ ∧ 2 ^ 64 ≤ recordCount) := by
    unfold bigUInt64LE
    split_ifs with hlarge
    · exact .throw ⟨rfl, hlarge⟩
    · exact .pure ⟨rfl, by omega, rfl⟩
  apply hpatch.bind_mono
  · rintro e s₂ ⟨rfl, hlarge⟩
    exact ⟨hscratched, fun _ => hlarge⟩
  rintro patch s₂ ⟨rfl, hfits, rfl⟩
  apply (pwriteSync_spec hout₁ _ _).bind_mono
  · rintro e s₃ ⟨hsame, hinterrupted⟩
    exact hfault s₃ (hscratched.trans (.refl hout₁ hsame)) hinterrupted
  intro _ s₃ hwrote₃
  have hlength : (writeAt whole 16 (ByteString.toLE 4 maxLastHeight)).length = whole.length :=
    length_writeAt rfl (by omega) _
  have hinside : 20 + (ByteString.toLE 8 recordCount).length <
      (writeAt whole 16 (ByteString.toLE 4 maxLastHeight)).length := by omega
  obtain ⟨out₂, hout₂, hdamaged₂⟩ := hdamaged₁.pwrite (by omega) hinside hwrote₃
  exact .pure ⟨hfits, hscratched.trans hwrote₃.scratched, out₂, hout₂, hdamaged₂.ne⟩

theorem fsyncSync_spec : Ensures (fsyncSync faults) s (fun _ s' => Same s s')
    (Interrupted faults s) := by
  apply systemCall_spec.bind
  intro call s₁ hsame
  exact .pure hsame

/-- What the inputs must be, and that their counts fit the header together. -/
def Joins (headerSize : Nat) (files : List (List UInt8)) : Prop :=
  AdmitsAll headerSize none none files ∧
    (Totals.start.addAll headerSize 0 files).recordCount < 2 ^ 64

/-- The whole output. -/
def joined (headerSize : Nat) (files : List (List UInt8)) : List UInt8 :=
  let totals := Totals.start.addAll headerSize 0 files
  patched (copied headerSize 0 files) totals.maxLastHeight totals.recordCount

/-- What is copied of whole inputs has a header at least. -/
theorem le_length_copied (hne : files ≠ []) (hall : AdmitsAll headerSize none none files) :
    headerSize ≤ (copied headerSize 0 files).length := by
  obtain ⟨first, rest, rfl⟩ := List.exists_cons_of_ne_nil hne
  have hwhole := hall.1.whole
  rw [copied, List.length_append, List.length_drop, startOf, if_pos rfl]
  omega

theorem writeOutput_spec (hsize : 28 < headerSize) (hpaths : paths ≠ [])
    (hne : ∀ path ∈ paths, path ≠ tmpPath) (hout : s.dir tmpPath = some []) :
    Ensures (writeOutput faults cuts headerSize tmpPath paths) s
      (fun totals s' => ∃ files, Holds s paths files ∧ Joins headerSize files ∧
        Scratched tmpPath s s' ∧ OrTorn cuts s tmpPath (joined headerSize files) s' ∧
        totals = Totals.start.addAll headerSize 0 files)
      (fun _ s' => Scratched tmpPath s s' ∧ (faults.Quiet → ¬∃ files, Holds s paths files ∧
        Joins headerSize files)) := by
  have hempty : Copied cuts s tmpPath [] s := ⟨[], hout, Or.inl ⟨rfl, rfl⟩⟩
  apply (concatInputs_spec hne hempty).bind_mono
  · rintro e s₁ ⟨hscratched, hnot⟩
    refine ⟨hscratched, ?_⟩
    rintro hquiet ⟨files, hholds, hjoins⟩
    exact hnot hquiet ⟨files, hholds, hjoins.1⟩
  rintro totals s₁ ⟨files, hholds, hall, hscratched, hcopied, rfl⟩
  have hfiles : files ≠ [] := hholds.nonempty hpaths
  have hlength := le_length_copied hfiles hall
  rw [List.nil_append] at hcopied
  apply (patchOutputHeader_spec hcopied (by omega)).bind_mono
  · rintro e s₂ ⟨hscratched₂, hlarge⟩
    refine ⟨hscratched.trans hscratched₂, ?_⟩
    rintro hquiet ⟨files', hholds', hjoins⟩
    obtain rfl := hholds.unique hholds'
    exact absurd hjoins.2 (Nat.not_lt_of_le (hlarge hquiet))
  rintro _ s₂ ⟨hfits, hscratched₂, hpatched⟩
  have hboth : Scratched tmpPath s s₂ := hscratched.trans hscratched₂
  apply fsyncSync_spec.bind_mono
  · rintro e s₃ ⟨hsame, hfault⟩
    refine ⟨hboth.trans ?_, fun hquiet => absurd hquiet hfault⟩
    obtain ⟨out, hout₂, -⟩ := hpatched
    exact .refl hout₂ hsame
  intro _ s₃ hsame
  obtain ⟨content, hcontent⟩ := hboth
  exact .pure ⟨files, hholds, ⟨hall, hfits⟩, ⟨content, hsame.dir.trans hcontent⟩,
    hpatched.same hsame, rfl⟩

end UtxoTracker.DatFiles
