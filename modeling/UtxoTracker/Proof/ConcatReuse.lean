import UtxoTracker.Proof.Writers
/-!
# What the reuse check accepts

A file is accepted exactly when its header belongs to the run and its body has the length that the
header says, and three files exactly when each is and their ranges are one.
-/

namespace UtxoTracker.DatFiles

open Fallible Throwing ValueCodec

variable {faults : Faults} {s s' : Disk} {path : String} {file : List UInt8}
  {header : DatHeader} {expected : Identity}

/-- The header of a file. -/
def headerOf (file : List UInt8) : DatHeader :=
  DatHeader.ofHeader (file.take HEADER_SIZE) file.length

/-- A whole header stands at the path. -/
def HeaderAt (s : Disk) (path : String) (header : DatHeader) : Prop :=
  ∃ file, s.dir path = some file ∧ HEADER_SIZE ≤ file.length ∧ header = headerOf file

theorem parseDatHeader_spec : Ensures (parseDatHeader faults path) s
    (fun header s' => s'.dir = s.dir ∧ HeaderAt s path header)
    (fun _ s' => s'.dir = s.dir ∧ (faults.Quiet → ∀ header, ¬HeaderAt s path header)) := by
  have hfault : ∀ s' : Disk, s'.dir = s.dir → ¬faults.Quiet →
      s'.dir = s.dir ∧ (faults.Quiet → ∀ header, ¬HeaderAt s path header) :=
    fun s' hsame hfault => ⟨hsame, fun hquiet => absurd hquiet hfault⟩
  cases hpath : s.dir path with
  | none =>
      have hnone : ∀ header, ¬HeaderAt s path header := by
        rintro header ⟨file, hfile, -⟩
        rw [hpath] at hfile
        cases hfile
      have hopen : Ensures (openSync faults path) s (fun _ _ => False)
          (fun _ s' => s'.dir = s.dir ∧ (faults.Quiet → ∀ header, ¬HeaderAt s path header)) := by
        apply systemCall_spec.bind_mono
        · rintro e s₁ ⟨hsame, hinterrupted⟩
          exact hfault s₁ hsame hinterrupted
        intro call s₁ hsame
        have hmissing : s₁.dir path = none := hsame.dir ▸ hpath
        apply (contents_missing hmissing fun _ => ⟨hsame.dir, fun _ => hnone⟩).bind
        rintro a s₂ ⟨⟩
      apply hopen.bind
      rintro a s₁ ⟨⟩
  | some file =>
      apply (openSync_spec hpath).bind_mono
      · rintro e s₁ ⟨hsame, hinterrupted⟩
        exact hfault s₁ hsame hinterrupted
      intro _ s₁ hsame₁
      have hfile₁ : s₁.dir path = some file := hsame₁.dir ▸ hpath
      apply (readHeaderFrom_spec hfile₁ rfl (Nat.zero_le _)).bind_mono
      · rintro e s₂ ⟨hsame, hshort⟩
        refine ⟨hsame.trans hsame₁.dir, ?_⟩
        rintro hquiet header ⟨other, hother, hwhole, -⟩
        rw [hpath, Option.some.injEq] at hother
        have := hshort hquiet
        rw [hother] at this
        omega
      rintro buf s₂ ⟨hsame, hwhole, rfl⟩
      have hsame₂ : s₂.dir = s.dir := (hsame.trans hsame₁).dir
      apply statSync_spec.bind_mono
      · rintro e s₃ ⟨hsame, hmissing⟩
        refine ⟨hsame.trans hsame₂, ?_⟩
        intro hquiet
        have hnone := hmissing hquiet
        rw [hsame₂, hpath] at hnone
        cases hnone
      rintro size s₃ ⟨hsame, other, hother, rfl⟩
      rw [hsame₂, hpath, Option.some.injEq] at hother
      rw [← hother]
      exact .pure ⟨hsame.dir.trans hsame₂, file, hpath, hwhole, rfl⟩

/-- **What a header must say** for the run. -/
structure Belongs (expected : Identity) (header : DatHeader) : Prop where
  magic : header.magic ∈ KNOWN_MAGICS
  chain : header.chain = expected.chain
  net : header.net = expected.net
  first : header.firstHeight = expected.fromHeight
  last : ∀ height ∈ expected.toHeight, header.lastHeight = height
  fixed : header.recordSize ≠ 0
  body : bodySize header = some (header.recordCount * header.recordSize)

theorem checkArtifact_ok_iff {header' : DatHeader} :
    checkArtifact path header expected = .ok header' ↔
      header' = header ∧ Belongs expected header := by
  unfold checkArtifact
  dsimp only
  simp only [ite_error_eq_ok_iff, not_not, not_or, not_exists, not_and, Except.ok.injEq]
  constructor
  · rintro ⟨hmagic, ⟨hchain, hnet⟩, hfirst, hlast, hfixed, hbody, rfl⟩
    exact ⟨rfl, hmagic, hchain, hnet, hfirst, hlast, hfixed, hbody⟩
  · rintro ⟨rfl, hbelongs⟩
    exact ⟨hbelongs.magic, ⟨hbelongs.chain, hbelongs.net⟩, hbelongs.first, hbelongs.last,
      hbelongs.fixed, hbelongs.body, rfl⟩

/-- The file at the path has a header of the run. -/
def Valid (expected : Identity) (s : Disk) (path : String) (header : DatHeader) : Prop :=
  HeaderAt s path header ∧ Belongs expected header

/-- **One file**: the check does not throw, and says what stands at the path. -/
theorem validateConcatArtifact_spec {throws : ConcatError → Disk → Prop} :
    Ensures (validateConcatArtifact faults path expected) s
      (fun result s' => s'.dir = s.dir ∧ ∀ header,
        (result = .ok header → Valid expected s path header) ∧
        (faults.Quiet → Valid expected s path header → result = .ok header))
      throws := by
  have hparse : Ensures (attempt (parseDatHeader faults path)) s
      (fun result s' => s'.dir = s.dir ∧ ∀ header,
        (result = .ok header → HeaderAt s path header) ∧
        (faults.Quiet → HeaderAt s path header → result = .ok header)) throws := by
    apply Ensures.attempt
    apply parseDatHeader_spec.mono
    · rintro header s₁ ⟨hsame, hat⟩
      refine ⟨hsame, ?_⟩
      intro other
      constructor
      · intro hok
        rwa [← Except.ok.inj hok]
      · rintro - ⟨file, hfile, -, rfl⟩
        obtain ⟨file', hfile', -, rfl⟩ := hat
        rw [hfile, Option.some.injEq] at hfile'
        rw [hfile']
    · rintro e s₁ ⟨hsame, hnone⟩
      refine ⟨hsame, ?_⟩
      intro header
      constructor
      · intro hok
        cases hok
      · intro hquiet hat
        exact absurd hat (hnone hquiet header)
  apply hparse.bind
  rintro result s₁ ⟨hsame, hresult⟩
  refine .pure ⟨hsame, ?_⟩
  intro header
  cases result with
  | error e =>
      constructor
      · intro hok
        cases hok
      · rintro hquiet ⟨hat, -⟩
        cases (hresult header).2 hquiet hat
  | ok parsed =>
      constructor
      · intro hok
        obtain ⟨rfl, hbelongs⟩ := checkArtifact_ok_iff.mp hok
        exact ⟨(hresult header).1 rfl, hbelongs⟩
      · rintro hquiet ⟨hat, hbelongs⟩
        obtain rfl := Except.ok.inj ((hresult header).2 hquiet hat)
        exact checkArtifact_ok_iff.mpr ⟨rfl, hbelongs⟩

/-! ### The three files -/

/-- **What the three files must be** for the run. -/
def Reusable (args : RunArgs) (dirs : WorkDirs) (s : Disk) : Prop :=
  ∃ codes outH spdH metaH, networkToCodes args.network = .ok codes ∧
    Valid ⟨codes.1, codes.2, args.fromHeight, args.toHeight⟩ s dirs.allOutputs outH ∧
    Valid ⟨codes.1, codes.2, args.fromHeight, args.toHeight⟩ s dirs.allSpends spdH ∧
    Valid ⟨codes.1, codes.2, args.fromHeight, args.toHeight⟩ s dirs.allMeta metaH ∧
    sameRange spdH outH = true ∧ sameRange metaH outH = true

theorem existsSync_spec {throws : ConcatError → Disk → Prop} :
    Ensures (existsSync faults path) s (fun here s' => s'.dir = s.dir ∧
      (faults.Quiet → here = (s.dir path).isSome)) throws := by
  unfold Ensures existsSync
  refine ⟨rfl, ?_⟩
  intro hquiet
  rw [hquiet.returns]
  rfl

theorem allExist_spec {paths : List String} {s : Disk} {throws : ConcatError → Disk → Prop} :
    Ensures (allExist faults paths) s (fun here s' => s'.dir = s.dir ∧
      (faults.Quiet → (∀ path ∈ paths, (s.dir path).isSome) → here = true)) throws := by
  induction paths generalizing s with
  | nil => exact .pure ⟨rfl, fun _ _ => rfl⟩
  | cons path rest ih =>
      apply existsSync_spec.bind
      rintro here s₁ ⟨hsame, hhere⟩
      split_ifs with htrue
      · apply ih.mono
        · rintro all s₂ ⟨hsame₂, hall⟩
          refine ⟨hsame₂.trans hsame, ?_⟩
          intro hquiet hexist
          apply hall hquiet
          intro other hmem
          rw [hsame]
          exact hexist other (List.mem_cons_of_mem _ hmem)
        · exact fun _ _ hthrows => hthrows
      · refine .pure ⟨hsame, ?_⟩
        intro hquiet hexist
        rw [hhere hquiet] at htrue
        exact absurd (hexist path List.mem_cons_self) htrue

theorem agree_eq_true_iff {outputs spends blocks : Except ConcatError DatHeader} :
    agree outputs spends blocks = true ↔ ∃ outH spdH metaH, outputs = .ok outH ∧
      spends = .ok spdH ∧ blocks = .ok metaH ∧ sameRange spdH outH = true ∧
      sameRange metaH outH = true := by
  constructor
  · intro hagree
    cases outputs with
    | error e => cases hagree
    | ok outH =>
        cases spends with
        | error e => cases hagree
        | ok spdH =>
            cases blocks with
            | error e => cases hagree
            | ok metaH =>
                obtain ⟨hspends, hmeta⟩ := Bool.and_eq_true_iff.mp hagree
                exact ⟨outH, spdH, metaH, rfl, rfl, rfl, hspends, hmeta⟩
  · rintro ⟨outH, spdH, metaH, rfl, rfl, rfl, hspends, hmeta⟩
    exact Bool.and_eq_true_iff.mpr ⟨hspends, hmeta⟩

/-- A valid file stays one while nothing is written. -/
theorem Valid.congr (hvalid : Valid expected s path header) (hsame : s'.dir = s.dir) :
    Valid expected s' path header := by
  obtain ⟨⟨file, hfile, hwhole, hheader⟩, hbelongs⟩ := hvalid
  exact ⟨⟨file, hsame ▸ hfile, hwhole, hheader⟩, hbelongs⟩

theorem Valid.isSome (hvalid : Valid expected s path header) : (s.dir path).isSome := by
  obtain ⟨⟨file, hfile, -⟩, -⟩ := hvalid
  rw [hfile]
  rfl

/-- **The three files are reused** only when they are the run's, and then unless a call fails. -/
theorem concatReusableForRun_spec {args : RunArgs} {dirs : WorkDirs} :
    Ensures (concatReusableForRun faults args dirs) s
      (fun reusable s' => s'.dir = s.dir ∧ (reusable = true → Reusable args dirs s) ∧
        (faults.Quiet → Reusable args dirs s → reusable = true))
      (fun _ s' => s'.dir = s.dir ∧ ∀ codes, networkToCodes args.network ≠ .ok codes) := by
  apply allExist_spec.bind
  rintro here s₁ ⟨hsame₁, hhere⟩
  split_ifs with htrue
  · have hlift : Ensures (lift (networkToCodes args.network) : Program (UInt8 × UInt8)) s₁
        (fun codes s' => s' = s₁ ∧ networkToCodes args.network = .ok codes)
        (fun _ s' => s'.dir = s.dir ∧ ∀ codes, networkToCodes args.network ≠ .ok codes) := by
      apply Ensures.lift
      · intro codes hok
        exact ⟨rfl, hok⟩
      · intro e herror
        refine ⟨hsame₁, ?_⟩
        intro codes hok
        rw [herror] at hok
        cases hok
    apply hlift.bind
    rintro codes s₂ ⟨rfl, hcodes⟩
    apply validateConcatArtifact_spec.bind
    rintro outputs s₃ ⟨hsame₃, houtputs⟩
    apply validateConcatArtifact_spec.bind
    rintro spends s₄ ⟨hsame₄, hspends⟩
    apply validateConcatArtifact_spec.bind
    rintro blocks s₅ ⟨hsame₅, hblocks⟩
    have hback₃ : s₃.dir = s.dir := hsame₃.trans hsame₁
    have hback₄ : s₄.dir = s.dir := hsame₄.trans hback₃
    refine .pure ⟨hsame₅.trans hback₄, ?_, ?_⟩
    · intro hagree
      obtain ⟨outH, spdH, metaH, rfl, rfl, rfl, hranges⟩ := agree_eq_true_iff.mp hagree
      exact ⟨codes, outH, spdH, metaH, hcodes, ((houtputs outH).1 rfl).congr hsame₁.symm,
        ((hspends spdH).1 rfl).congr hback₃.symm, ((hblocks metaH).1 rfl).congr hback₄.symm, hranges⟩
    · rintro hquiet ⟨codes', outH, spdH, metaH, hcodes', hout, hspd, hmeta, hranges⟩
      rw [hcodes, Except.ok.injEq] at hcodes'
      obtain rfl := hcodes'
      exact agree_eq_true_iff.mpr ⟨outH, spdH, metaH, (houtputs outH).2 hquiet (hout.congr hsame₁),
        (hspends spdH).2 hquiet (hspd.congr hback₃), (hblocks metaH).2 hquiet (hmeta.congr hback₄),
        hranges⟩
  · refine .pure ⟨hsame₁, ?_, ?_⟩
    · intro hfalse
      cases hfalse
    · rintro hquiet ⟨codes, outH, spdH, metaH, -, hout, hspd, hmeta, -⟩
      apply absurd (hhere hquiet _) htrue
      intro path hmem
      simp only [List.mem_cons, List.not_mem_nil, or_false] at hmem
      rcases hmem with rfl | rfl | rfl
      · exact hout.isSome
      · exact hspd.isSome
      · exact hmeta.isSome

end UtxoTracker.DatFiles
