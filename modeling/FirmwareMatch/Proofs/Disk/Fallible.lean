import FirmwareMatch.Proofs.Disk.Files
import FirmwareMatch.Proofs.Disk.Programs

/-
  File systems of which any operation may fail.

  Of such a file system only this is known: looking at it changes nothing; an operation that
  succeeds does what it does to a volume; making directories changes no file, also if it fails; and
  writing that fails leaves the file as it was or with the first bytes of what was to be written,
  behind what it held if it was to be extended. Everything else, such as when an operation fails, is
  left open. A volume is one, and so is a volume on which operations fail at given times.

  Proved:
  * `KeepsVolume.bind`, `keepsVolume_foldlM`: programs that only look.
  * `run_appendPortions_entry`: portions behind what a file holds, until one cannot be written.
  * `run_writeOutput`: one file that is written into a directory.
  * `run_writeOutputs`: several files, one after another, until one cannot be written.
-/

namespace FirmwareMatch

/-- A file system over a volume, of which any operation may fail. -/
class FallibleDisk (σ : Type) [Disk (StateM σ)] where
  /-- The tree of files as it is on the disk. -/
  volume : σ → Volume
  kindOf_keeps : ∀ (p : Path) (s : σ),
    volume (StateT.run (Disk.kindOf p : StateM σ EntryKind) s).2 = volume s
  readFile_keeps : ∀ (p : Path) (s : σ),
    volume (StateT.run (Disk.readFile p : StateM σ (Except String ByteArray)) s).2 = volume s
  survey_keeps : ∀ (p : Path) (s : σ),
    volume (StateT.run (Disk.survey p : StateM σ (Except String (FileTree Path))) s).2 = volume s
  makeDirectories_ok : ∀ {p : Path} {s s' : σ},
    StateT.run (Disk.makeDirectories p : StateM σ (Except String PUnit)) s = (.ok ⟨⟩, s') →
    ∃ fuel, (volume s).makeDirectories? fuel p = some (volume s')
  makeDirectories_error : ∀ {p : Path} {s s' : σ} {reason : String},
    StateT.run (Disk.makeDirectories p : StateM σ (Except String PUnit)) s = (.error reason, s') →
    (volume s').fileAt? = (volume s).fileAt?
  writeFile_ok : ∀ {p : Path} {bytes : ByteArray} {s s' : σ},
    StateT.run (Disk.writeFile p bytes : StateM σ (Except String PUnit)) s = (.ok ⟨⟩, s') →
    (volume s).write? p bytes = some (volume s')
  writeFile_error : ∀ {p : Path} {bytes : ByteArray} {s s' : σ} {reason : String},
    StateT.run (Disk.writeFile p bytes : StateM σ (Except String PUnit)) s = (.error reason, s') →
    volume s' = volume s ∨ ∃ n, (volume s).write? p (bytes.extract 0 n) = some (volume s')
  appendFile_ok : ∀ {p : Path} {bytes : ByteArray} {s s' : σ},
    StateT.run (Disk.appendFile p bytes : StateM σ (Except String PUnit)) s = (.ok ⟨⟩, s') →
    (volume s).append? p bytes = some (volume s')
  appendFile_error : ∀ {p : Path} {bytes : ByteArray} {s s' : σ} {reason : String},
    StateT.run (Disk.appendFile p bytes : StateM σ (Except String PUnit)) s = (.error reason, s') →
    volume s' = volume s ∨ ∃ n, (volume s).append? p (bytes.extract 0 n) = some (volume s')

/-! ## Volumes -/

namespace Volume

theorem run_makeDirectories (v : Volume) (p : Path) :
    StateT.run (Disk.makeDirectories p : StateM Volume (Except String PUnit)) v =
      match v.makeDirectories? (p.steps.length + 2) p with
      | some w => (.ok ⟨⟩, w)
      | none => (.error refusal, v) := by
  cases h : v.makeDirectories? (p.steps.length + 2) p <;> simp [Disk.makeDirectories, h] <;> rfl

theorem run_survey_snd (v : Volume) (p : Path) :
    (StateT.run (Disk.survey p : StateM Volume (Except String (FileTree Path))) v).2 = v := by
  simp only [Disk.survey, StateT.run_bind, StateT.run_get, pure_bind]
  split <;> rfl

end Volume

instance : FallibleDisk Volume where
  volume v := v
  kindOf_keeps _ _ := rfl
  readFile_keeps p v := by
    rw [Volume.run_readFile]
    cases v.read? p <;> rfl
  survey_keeps p v := Volume.run_survey_snd v p
  makeDirectories_ok := by
    intro p v w h
    rw [Volume.run_makeDirectories] at h
    split at h
    · rename_i u hu
      exact ⟨_, hu.trans (congrArg some (Prod.mk.inj h).2)⟩
    · cases h
  makeDirectories_error := by
    intro p v w reason h
    rw [Volume.run_makeDirectories] at h
    split at h
    · cases h
    · rw [(Prod.mk.inj h).2]
  writeFile_ok := by
    intro p bytes v w h
    rw [Volume.run_writeFile] at h
    split at h
    · rename_i u hu
      exact hu.trans (congrArg some (Prod.mk.inj h).2)
    · cases h
  writeFile_error := by
    intro p bytes v w reason h
    rw [Volume.run_writeFile] at h
    split at h
    · cases h
    · exact .inl (Prod.mk.inj h).2.symm
  appendFile_ok := by
    intro p bytes v w h
    rw [Volume.run_appendFile] at h
    split at h
    · rename_i u hu
      exact hu.trans (congrArg some (Prod.mk.inj h).2)
    · cases h
  appendFile_error := by
    intro p bytes v w reason h
    rw [Volume.run_appendFile] at h
    split at h
    · cases h
    · exact .inl (Prod.mk.inj h).2.symm

/-! ## Failures at given times -/

/-- How an operation fails. -/
inductive Mishap
  | refused
  /-- Of what was to be written, only so many bytes get to the disk. -/
  | brokenOff (count : Nat)
deriving DecidableEq, Repr

/-- A volume on which operations fail that could be done. -/
structure UnreliableVolume where
  volume : Volume
  /-- How many operations there have been. -/
  clock : Nat
  /-- What befalls the operation at each time. -/
  mishapAt : Nat → Option Mishap

namespace UnreliableVolume

/-- A reason for an operation that failed although it could be done. -/
def interruption : String :=
  "input/output error"

/-- Lets the clock advance, and tells what befalls the operation. -/
def mishap? : StateM UnreliableVolume (Option Mishap) := do
  let s ← get
  set { s with clock := s.clock + 1 }
  return s.mishapAt s.clock

/-- Does an operation on the volume. -/
def onVolume {α : Type} (op : StateM Volume α) : StateM UnreliableVolume α := do
  let s ← get
  let (a, volume) := op.run s.volume
  set { s with volume }
  return a

/-- Does an operation on the volume unless something befalls it; an operation that is broken off
    leaves something else. -/
def attempt {α : Type} (op : StateM Volume (Except String α))
    (leave : Nat → Volume → Volume) : StateM UnreliableVolume (Except String α) := do
  match ← mishap? with
  | none => onVolume op
  | some .refused => return .error interruption
  | some (.brokenOff count) =>
    modify fun s => { s with volume := leave count s.volume }
    return .error interruption

/-- An operation that is broken off changes nothing. -/
def leaveNothing (_ : Nat) (v : Volume) : Volume :=
  v

/-- What is left of a file if only so many bytes get to the disk, by the operation `put?`. -/
def leaveTorn (put? : Volume → ByteArray → Option Volume) (bytes : ByteArray) (count : Nat)
    (v : Volume) : Volume :=
  (put? v (bytes.extract 0 count)).getD v

end UnreliableVolume

open UnreliableVolume in
instance : Disk (StateM UnreliableVolume) where
  kindOf p := do
    match ← mishap? with
    | none => onVolume (Disk.kindOf p)
    | some _ => return .nothing
  readFile p := attempt (Disk.readFile p) leaveNothing
  writeFile p bytes := attempt (Disk.writeFile p bytes) (leaveTorn (·.write? p ·) bytes)
  appendFile p bytes := attempt (Disk.appendFile p bytes) (leaveTorn (·.append? p ·) bytes)
  makeDirectories p := attempt (Disk.makeDirectories p) leaveNothing
  survey p := attempt (Disk.survey p) leaveNothing
  workingDirectory := onVolume Disk.workingDirectory
  resolve? p := onVolume (Disk.resolve? p)

namespace UnreliableVolume

/-- The state after the next operation, which leaves the volume `v`. -/
def next (s : UnreliableVolume) (v : Volume) : UnreliableVolume :=
  { s with volume := v, clock := s.clock + 1 }

theorem run_attempt {α : Type} (op : StateM Volume (Except String α))
    (leave : Nat → Volume → Volume) (s : UnreliableVolume) :
    StateT.run (attempt op leave) s =
      match s.mishapAt s.clock with
      | none => ((StateT.run op s.volume).1, s.next (StateT.run op s.volume).2)
      | some .refused => (.error interruption, s.next s.volume)
      | some (.brokenOff count) => (.error interruption, s.next (leave count s.volume)) := by
  cases h : s.mishapAt s.clock with
  | none => simp [attempt, mishap?, onVolume, next, h]; rfl
  | some mishap => cases mishap <;> simp [attempt, mishap?, next, h] <;> rfl

/-- An operation that succeeds is done on the volume. -/
theorem run_attempt_ok {α : Type} {op : StateM Volume (Except String α)}
    {leave : Nat → Volume → Volume} {s s' : UnreliableVolume} {a : α}
    (h : StateT.run (attempt op leave) s = (.ok a, s')) :
    StateT.run op s.volume = (.ok a, s'.volume) := by
  rw [run_attempt] at h
  split at h
  · obtain ⟨hresult, rfl⟩ := Prod.mk.inj h
    exact Prod.ext hresult rfl
  · cases h
  · cases h

/-- An operation that fails was not done, failed on the volume or was broken off. -/
theorem run_attempt_error {α : Type} {op : StateM Volume (Except String α)}
    {leave : Nat → Volume → Volume} {s s' : UnreliableVolume} {reason : String}
    (h : StateT.run (attempt op leave) s = (.error reason, s')) :
    s'.volume = s.volume ∨ StateT.run op s.volume = (.error reason, s'.volume) ∨
      ∃ count, s'.volume = leave count s.volume := by
  rw [run_attempt] at h
  split at h
  · obtain ⟨hresult, rfl⟩ := Prod.mk.inj h
    exact .inr (.inl (Prod.ext hresult rfl))
  · exact .inl (by rw [← (Prod.mk.inj h).2]; rfl)
  · exact .inr (.inr ⟨_, by rw [← (Prod.mk.inj h).2]; rfl⟩)

/-- Of bytes that could not be written, the first ones are there. -/
theorem eq_or_eq_leaveTorn (put? : Volume → ByteArray → Option Volume) (bytes : ByteArray)
    (count : Nat) (v : Volume) : leaveTorn put? bytes count v = v ∨
      ∃ n, put? v (bytes.extract 0 n) = some (leaveTorn put? bytes count v) := by
  unfold leaveTorn
  cases hput : put? v (bytes.extract 0 count) with
  | none => exact .inl rfl
  | some w => exact .inr ⟨count, hput⟩

/-- An operation that leaves a volume as it is does so also if it fails. -/
theorem volume_run_attempt {α : Type} {op : StateM Volume (Except String α)}
    (h : ∀ v, (StateT.run op v).2 = v) (s : UnreliableVolume) :
    (StateT.run (attempt op leaveNothing) s).2.volume = s.volume := by
  rw [run_attempt]
  split
  · exact h s.volume
  · rfl
  · rfl

end UnreliableVolume

open UnreliableVolume in
instance : FallibleDisk UnreliableVolume where
  volume := UnreliableVolume.volume
  kindOf_keeps p s := by
    change (StateT.run (mishap? >>= fun mishap => _) s).2.volume = _
    cases h : s.mishapAt s.clock <;> simp [mishap?, onVolume, h] <;> rfl
  readFile_keeps p := volume_run_attempt (FallibleDisk.readFile_keeps p)
  survey_keeps p := volume_run_attempt (FallibleDisk.survey_keeps p)
  makeDirectories_ok h := FallibleDisk.makeDirectories_ok (run_attempt_ok h)
  makeDirectories_error := by
    intro p s s' reason h
    rcases run_attempt_error h with hsame | hfail | ⟨count, hsame⟩
    · rw [hsame]
    · exact FallibleDisk.makeDirectories_error hfail
    · rw [hsame]
      rfl
  writeFile_ok h := FallibleDisk.writeFile_ok (run_attempt_ok h)
  writeFile_error := by
    intro p bytes s s' reason h
    rcases run_attempt_error h with hsame | hfail | ⟨count, hleft⟩
    · exact .inl hsame
    · exact FallibleDisk.writeFile_error hfail
    · exact hleft ▸ eq_or_eq_leaveTorn (·.write? p ·) bytes count s.volume
  appendFile_ok h := FallibleDisk.appendFile_ok (run_attempt_ok h)
  appendFile_error := by
    intro p bytes s s' reason h
    rcases run_attempt_error h with hsame | hfail | ⟨count, hleft⟩
    · exact .inl hsame
    · exact FallibleDisk.appendFile_error hfail
    · exact hleft ▸ eq_or_eq_leaveTorn (·.append? p ·) bytes count s.volume

/-! ## Programs that only look -/

section

variable {σ α β : Type} [Disk (StateM σ)] [FallibleDisk σ]

open FallibleDisk Access

/-- A program that leaves the tree of files as it is. -/
def KeepsVolume (x : Access (StateM σ) α) : Prop :=
  ∀ s, volume (x.run.run s).2 = volume s

theorem keepsVolume_pure (a : α) : KeepsVolume (pure a : Access (StateM σ) α) := fun _ => rfl

theorem keepsVolume_throw (e : Fault) : KeepsVolume (throw e : Access (StateM σ) α) := fun _ => rfl

theorem KeepsVolume.bind {x : Access (StateM σ) α} {f : α → Access (StateM σ) β}
    (hx : KeepsVolume x) (hf : ∀ a, KeepsVolume (f a)) : KeepsVolume (x >>= f) := by
  intro s
  have hfirst := hx s
  rcases run_bind_cases (Prod.eta ((x >>= f).run.run s)).symm with
    ⟨a, t, hrun, hrest⟩ | ⟨e, hrun, -⟩
  · rw [hrun] at hfirst
    have hsecond := hf a t
    rw [hrest] at hsecond
    exact hsecond.trans hfirst
  · rwa [hrun] at hfirst

theorem keepsVolume_kindOf (p : Path) : KeepsVolume (kindOf p : Access (StateM σ) EntryKind) :=
  kindOf_keeps p

theorem keepsVolume_attempt {fault : String → Fault} {op : StateM σ (Except String α)}
    (h : ∀ s, volume (StateT.run op s).2 = volume s) :
    KeepsVolume (attempt fault op : Access (StateM σ) α) := h

theorem keepsVolume_foldlM {f : β → α → Access (StateM σ) β} (hf : ∀ b a, KeepsVolume (f b a))
    (xs : List α) (b : β) : KeepsVolume (xs.foldlM f b) := by
  induction xs generalizing b with
  | nil => exact keepsVolume_pure b
  | cons x xs ih =>
    rw [List.foldlM_cons]
    exact (hf b x).bind ih

theorem keepsVolume_readListing (p : Path) :
    KeepsVolume (readListing p : Access (StateM σ) String) := by
  have hread : KeepsVolume (readBytes p >>= fun bytes => pure (Text.decodeUtf8Lossy bytes) :
      Access (StateM σ) String) :=
    (keepsVolume_attempt (readFile_keeps p)).bind fun _ => keepsVolume_pure _
  refine (keepsVolume_kindOf p).bind fun kind => ?_
  split
  · exact (keepsVolume_throw _).bind fun _ => hread
  · exact hread

/-! ## Files in a directory -/

/-- A file to be written into a directory: it is made with a first portion, and others follow. -/
structure OutputFile where
  name : String
  text : String
  first : Portion
  rest : List Portion
  /-- The portions make up the text. -/
  joined_eq : Portion.joined first.bytes rest = text.toUTF8

namespace OutputFile

/-- A file that is written at once. -/
def whole (name : String) (fault : String → Fault) (text : String) : OutputFile :=
  ⟨name, text, ⟨text.toUTF8, fault⟩, [], rfl⟩

/-- A file of records, which is made empty and extended by what the buffer holds. -/
def ofRecords (name : String) (p : Path) (records : List (List String)) : OutputFile :=
  ⟨name, Csv.print records, ⟨.empty, .csv⟩, Csv.recordPortions p records,
    Csv.joined_recordPortions p records⟩

/-- Where a file goes in a directory, and what it holds there. -/
def placed (dir : List String) (x : OutputFile) : List String × ByteArray :=
  (dir ++ [x.name], x.text.toUTF8)

/-- Writing the file ends with a fault and leaves these bytes in it, or none if it is as it was.
    Either it could not be made, and is as it was or holds first bytes of the first portion; or it
    could not be extended, and holds the portions before, first bytes of the next one, and once more
    first bytes of this one, since it was tried again. -/
inductive BreaksOff (x : OutputFile) : Fault → Option ByteArray → Prop
  | asBefore (reason : String) : x.BreaksOff (x.first.fault reason) none
  | made (reason : String) (n : Nat) :
      x.BreaksOff (x.first.fault reason) (some (x.first.bytes.extract 0 n))
  | extended {k : Nat} {y : Portion} (hy : x.rest[k]? = some y) (reason : String) (n n' : Nat) :
      x.BreaksOff (y.fault reason) (some (Portion.joined x.first.bytes (x.rest.take k) ++
        y.bytes.extract 0 n ++ y.bytes.extract 0 n'))

end OutputFile

/-- Writes a file into the directory `root`. -/
def writeOutput {m : Type → Type} [Monad m] [Disk m] (root : Path) (x : OutputFile) :
    Access m PUnit := do
  writePortion (root.entry x.name) x.first
  appendPortions (root.entry x.name) x.rest

/-- Writes files into the directory `root`, one after another. -/
def writeOutputs {m : Type → Type} [Monad m] [Disk m] (root : Path) :
    List OutputFile → Access m PUnit
  | [] => pure ⟨⟩
  | x :: xs => do
    writeOutput root x
    writeOutputs root xs

section

variable {root : Path} {dir : List String} {name : String} {s s' : σ}

/-- Making a file in a directory succeeds and changes that one file, or fails and leaves it as it
    was or with first bytes of what was to be written. -/
theorem run_writePortion_entry {x : Portion} {r : Except Fault PUnit} (hname : IsEntryName name)
    (hdir : (volume s).directoryAt? root = some dir)
    (h : (writePortion (root.entry name) x : Access (StateM σ) PUnit).run.run s = (r, s')) :
    (volume s').directoryAt? root = some dir ∧
      (r = .ok ⟨⟩ ∧
          (volume s').fileAt? = overwrite (volume s).fileAt? (dir ++ [name], x.bytes) ∨
        ∃ reason, r = .error (x.fault reason) ∧
          ((volume s').fileAt? = (volume s).fileAt? ∨ ∃ n, (volume s').fileAt? =
            overwrite (volume s).fileAt? (dir ++ [name], x.bytes.extract 0 n))) := by
  -- the directory of a file that was written is the one that is known
  have hwritten : ∀ bytes, (volume s).write? (root.entry name) bytes = some (volume s') →
      (volume s').directoryAt? root = some dir ∧
        (volume s').fileAt? = overwrite (volume s).fileAt? (dir ++ [name], bytes) := by
    intro bytes hwrite
    obtain ⟨dir', hdir', hstays, hfiles⟩ := Volume.fileAt?_write?_entry hname hwrite
    obtain rfl := Option.some.inj (hdir.symm.trans hdir')
    exact ⟨hstays, hfiles⟩
  rcases run_attempt_cases h with ⟨_, hrun, hr⟩ | ⟨reason, hrun, hr⟩
  · obtain ⟨hstays, hfiles⟩ := hwritten _ (writeFile_ok hrun)
    exact ⟨hstays, .inl ⟨hr, hfiles⟩⟩
  · rcases writeFile_error hrun with hsame | ⟨n, hwrite⟩
    · exact ⟨hsame ▸ hdir, .inr ⟨reason, hr, .inl (by rw [hsame])⟩⟩
    · obtain ⟨hstays, hfiles⟩ := hwritten _ hwrite
      exact ⟨hstays, .inr ⟨reason, hr, .inr ⟨n, hfiles⟩⟩⟩

variable {before : ByteArray} (hname : IsEntryName name)
  (hdir : (volume s).directoryAt? root = some dir)
  (hfile : (volume s).fileAt? (dir ++ [name]) = some before)

include hname hdir hfile

/-- Extending a file of a directory puts bytes behind what it held, or fails and puts first ones
    there, maybe none. -/
theorem run_appendFile_entry {bytes : ByteArray} {r : Except String PUnit}
    (h : StateT.run (Disk.appendFile (root.entry name) bytes : StateM σ (Except String PUnit)) s =
      (r, s')) :
    (volume s').directoryAt? root = some dir ∧ ∃ n, (volume s').fileAt? =
        overwrite (volume s).fileAt? (dir ++ [name], before ++ bytes.extract 0 n) ∧
      (r = .ok ⟨⟩ → bytes.extract 0 n = bytes) := by
  cases r with
  | ok u =>
    obtain ⟨hstays, hfiles⟩ := Volume.fileAt?_append?_entry hname hdir hfile (appendFile_ok h)
    refine ⟨hstays, bytes.size, ?_, fun _ => ByteArray.extract_zero_size⟩
    rw [ByteArray.extract_zero_size, hfiles]
  | error reason =>
    rcases appendFile_error h with hsame | ⟨n, happend⟩
    · refine ⟨hsame ▸ hdir, 0, ?_, fun hr => nomatch hr⟩
      rw [ByteArray.extract_same, ByteArray.append_empty, overwrite_eq_self hfile, hsame]
    · obtain ⟨hstays, hfiles⟩ := Volume.fileAt?_append?_entry hname hdir hfile happend
      exact ⟨hstays, n, hfiles, fun hr => nomatch hr⟩

/-- A portion goes behind what a file holds, or first bytes of it do, twice, maybe none. -/
theorem run_appendPortion_entry {x : Portion} {r : Except Fault PUnit}
    (h : (appendPortion (root.entry name) x : Access (StateM σ) PUnit).run.run s = (r, s')) :
    (volume s').directoryAt? root = some dir ∧
      (r = .ok ⟨⟩ ∧
          (volume s').fileAt? = overwrite (volume s).fileAt? (dir ++ [name], before ++ x.bytes) ∨
        ∃ reason n n', r = .error (x.fault reason) ∧ (volume s').fileAt? =
          overwrite (volume s).fileAt?
            (dir ++ [name], before ++ x.bytes.extract 0 n ++ x.bytes.extract 0 n')) := by
  rw [run_appendPortion] at h
  split at h
  · rename_i t hrun
    obtain ⟨rfl, rfl⟩ := Prod.mk.inj h
    obtain ⟨hstays, n, hfiles, hall⟩ := run_appendFile_entry hname hdir hfile hrun
    exact ⟨hstays, .inl ⟨rfl, by rw [hfiles, hall rfl]⟩⟩
  · rename_i reason t hrun
    obtain ⟨rfl, rfl⟩ := Prod.mk.inj h
    obtain ⟨hstays, n, hfiles, -⟩ := run_appendFile_entry hname hdir hfile hrun
    have hthere : (volume t).fileAt? (dir ++ [name]) = some (before ++ x.bytes.extract 0 n) := by
      rw [hfiles, overwrite, if_pos rfl]
    obtain ⟨hstays', n', hfiles', -⟩ := run_appendFile_entry hname hstays hthere (Prod.eta _).symm
    refine ⟨hstays', .inr ⟨reason, n, n', rfl, ?_⟩⟩
    rw [hfiles', hfiles, overwrite_overwrite]

/-- Portions go behind what a file holds, or those before the one that cannot be written. -/
theorem run_appendPortions_entry {xs : List Portion} {r : Except Fault PUnit}
    (h : (appendPortions (root.entry name) xs : Access (StateM σ) PUnit).run.run s = (r, s')) :
    (volume s').directoryAt? root = some dir ∧
      (r = .ok ⟨⟩ ∧ (volume s').fileAt? =
          overwrite (volume s).fileAt? (dir ++ [name], Portion.joined before xs) ∨
        ∃ k y reason n n', xs[k]? = some y ∧ r = .error (y.fault reason) ∧
          (volume s').fileAt? = overwrite (volume s).fileAt? (dir ++ [name],
            Portion.joined before (xs.take k) ++ y.bytes.extract 0 n ++ y.bytes.extract 0 n')) := by
  induction xs generalizing s before with
  | nil =>
    obtain ⟨rfl, rfl⟩ := Prod.mk.inj h
    exact ⟨hdir, .inl ⟨rfl, (overwrite_eq_self hfile).symm⟩⟩
  | cons x xs ih =>
    rcases run_bind_cases h with ⟨_, t, hfirst, hrest⟩ | ⟨e, hfirst, rfl⟩
    · -- the first portion is there: what happens to the others happens one place further on
      obtain ⟨hstays, ⟨-, hfiles⟩ | ⟨_, _, _, hfail, -⟩⟩ :=
        run_appendPortion_entry hname hdir hfile hfirst
      · have hthere : (volume t).fileAt? (dir ++ [name]) = some (before ++ x.bytes) := by
          rw [hfiles, overwrite, if_pos rfl]
        obtain ⟨hdir', hothers⟩ := ih hstays hthere hrest
        simp only [hfiles, overwrite_overwrite] at hothers
        refine ⟨hdir', ?_⟩
        rcases hothers with hdone | ⟨k, y, reason, n, n', hy, hr, hbroken⟩
        · exact .inl hdone
        · exact .inr ⟨k + 1, y, reason, n, n', hy, hr, hbroken⟩
      · cases hfail
    · obtain ⟨hstays, ⟨hok, -⟩ | ⟨reason, n, n', hfail, hleft⟩⟩ :=
        run_appendPortion_entry hname hdir hfile hfirst
      · cases hok
      · exact ⟨hstays, .inr ⟨0, x, reason, n, n', rfl, hfail, hleft⟩⟩

end

/-- The files after one of them broke off and left these bytes, or none if it is as it was. -/
def leftAt (files : List String → Option ByteArray) (names : List String) :
    Option ByteArray → List String → Option ByteArray
  | none => files
  | some bytes => overwrite files (names, bytes)

/-- Writing a file into a directory succeeds and changes that one file, or breaks off. -/
theorem run_writeOutput {root : Path} {dir : List String} {x : OutputFile} {s s' : σ}
    {r : Except Fault PUnit} (hname : IsEntryName x.name)
    (hdir : (volume s).directoryAt? root = some dir)
    (h : (writeOutput root x : Access (StateM σ) PUnit).run.run s = (r, s')) :
    (volume s').directoryAt? root = some dir ∧
      (r = .ok ⟨⟩ ∧ (volume s').fileAt? = overwrite (volume s).fileAt? (x.placed dir) ∨
        ∃ e left, r = .error e ∧ x.BreaksOff e left ∧
          (volume s').fileAt? = leftAt (volume s).fileAt? (dir ++ [x.name]) left) := by
  rcases run_bind_cases h with ⟨_, t, hfirst, hrest⟩ | ⟨e, hfirst, rfl⟩
  · obtain ⟨hstays, ⟨-, hfiles⟩ | ⟨_, hfail, -⟩⟩ := run_writePortion_entry hname hdir hfirst
    · have hthere : (volume t).fileAt? (dir ++ [x.name]) = some x.first.bytes := by
        rw [hfiles, overwrite, if_pos rfl]
      obtain ⟨hdir', hothers⟩ := run_appendPortions_entry hname hstays hthere hrest
      simp only [hfiles, overwrite_overwrite] at hothers
      refine ⟨hdir', ?_⟩
      rcases hothers with ⟨hr, hdone⟩ | ⟨k, y, reason, n, n', hy, hr, hbroken⟩
      · rw [x.joined_eq] at hdone
        exact .inl ⟨hr, hdone⟩
      · exact .inr ⟨_, _, hr, .extended hy reason n n', hbroken⟩
    · cases hfail
  · obtain ⟨hstays, ⟨hok, -⟩ | ⟨reason, hfail, hsame | ⟨n, htorn⟩⟩⟩ :=
      run_writePortion_entry hname hdir hfirst
    · cases hok
    · exact ⟨hstays, .inr ⟨_, _, hfail, .asBefore reason, hsame⟩⟩
    · exact ⟨hstays, .inr ⟨_, _, hfail, .made reason n, htorn⟩⟩

/-- Of the files to be written into a directory all before number `k` have been, this one broke off
    with a fault, and all others are as before. -/
def BrokenOffAt (k : Nat) (dir : List String) (xs : List OutputFile) (e : Fault)
    (before after : List String → Option ByteArray) : Prop :=
  ∃ x left, xs[k]? = some x ∧ x.BreaksOff e left ∧
    after = leftAt (((xs.take k).map (·.placed dir)).foldl overwrite before) (dir ++ [x.name]) left

/-- Files that are written one after another are all there, or those before the one that cannot be
    written. -/
theorem run_writeOutputs {root : Path} {dir : List String} {xs : List OutputFile} {s s' : σ}
    {r : Except Fault PUnit} (hnames : ∀ x ∈ xs, IsEntryName x.name)
    (hdir : (volume s).directoryAt? root = some dir)
    (h : (writeOutputs root xs : Access (StateM σ) PUnit).run.run s = (r, s')) :
    (volume s').directoryAt? root = some dir ∧
      (r = .ok ⟨⟩ ∧
          (volume s').fileAt? = (xs.map (·.placed dir)).foldl overwrite (volume s).fileAt? ∨
        ∃ k e, r = .error e ∧ BrokenOffAt k dir xs e (volume s).fileAt? (volume s').fileAt?) := by
  induction xs generalizing s with
  | nil =>
    obtain ⟨rfl, rfl⟩ := Prod.mk.inj h
    exact ⟨hdir, .inl ⟨rfl, rfl⟩⟩
  | cons x xs ih =>
    obtain ⟨hname, hnames⟩ := List.forall_mem_cons.mp hnames
    rcases run_bind_cases h with ⟨_, t, hfirst, hrest⟩ | ⟨e, hfirst, rfl⟩
    · -- the first file is there: what happens to the others happens one place further on
      obtain ⟨hstays, ⟨-, hfiles⟩ | ⟨_, _, hfail, -⟩⟩ := run_writeOutput hname hdir hfirst
      · obtain ⟨hdir', hothers⟩ := ih hnames hstays hrest
        refine ⟨hdir', ?_⟩
        rw [hfiles] at hothers
        rcases hothers with hdone | ⟨k, e, hr, hbroken⟩
        · exact .inl hdone
        · exact .inr ⟨k + 1, e, hr, hbroken⟩
      · cases hfail
    · obtain ⟨hstays, ⟨hok, -⟩ | ⟨_, left, hfail, hbroken, hleft⟩⟩ :=
        run_writeOutput hname hdir hfirst
      · cases hok
      · exact ⟨hstays, .inr ⟨0, _, hfail, x, left, rfl, hbroken, hleft⟩⟩

end

end FirmwareMatch
