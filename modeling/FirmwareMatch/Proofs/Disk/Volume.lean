import FirmwareMatch.Csv.Writer
import FirmwareMatch.Disk.Volume
import FirmwareMatch.Proofs.Disk.Programs
import FirmwareMatch.Proofs.Disk.Tree

/-
  A file that was written is there.

  Writing replaces what stands under one name of a directory, and a directory is never replaced. So
  every directory is still one and has lost no name, and a path is walked to where it led before;
  its last step leads to the new file. A file that was written can be written again, and nothing is
  left of the first time; so a file that is written in portions is as if it were written at once.

  Proved:
  * `descend?_put?`, `put?_put?`: a tree that was put stands where it was put, until another one is.
  * `keepsDirectories_put?`: directories stay, with all their names.
  * `get?_write?`, `write?_write?`: what was written lies at its path, until it is written again.
  * `write?_of_run_writeText`, `write?_of_run_writeRecords`: a text that a program wrote, at once or
    in portions, is what the file holds.
-/

namespace FirmwareMatch

namespace FileTree

variable {α : Type} {t tree tree' root root' : FileTree α}

/-- A tree that was put below names stands below them. -/
theorem descend?_put? {names : List String} (h : put? tree names root = some root') :
    root'.descend? names = some tree := by
  induction names generalizing root root' with
  | nil =>
    simp only [put?, Option.some.injEq] at h
    rw [← h, descend?_nil]
  | cons name names ih =>
    cases root with
    | file content => simp [put?] at h
    | directory es =>
      cases names with
      | nil =>
        simp only [put?, Option.some.injEq] at h
        rw [← h, descend?_cons_directory, lookup_setEntry, if_pos rfl]
        rfl
      | cons next names =>
        simp only [put?] at h
        split at h
        · obtain ⟨c', hput, rfl⟩ := Option.map_eq_some_iff.mp h
          rw [descend?_cons_directory, lookup_setEntry, if_pos rfl]
          exact ih hput
        · simp at h

theorem setEntry_setEntry (name : String) (es : List (String × FileTree α)) :
    setEntry name tree' (setEntry name tree es) = setEntry name tree' es := by
  induction es with
  | nil => simp [setEntry]
  | cons e es ih => by_cases h : e.1 = name <;> simp [setEntry, h, ih]

/-- Of a tree that was put nothing is left when another one is put in its place. -/
theorem put?_put? {names : List String} (h : put? tree names root = some root') :
    put? tree' names root' = put? tree' names root := by
  induction names generalizing root root' with
  | nil => rfl
  | cons name names ih =>
    cases root with
    | file content => simp [put?] at h
    | directory es =>
      cases names with
      | nil =>
        simp only [put?, Option.some.injEq] at h
        rw [← h, put?, put?, setEntry_setEntry]
      | cons next names =>
        simp only [put?] at h
        split at h
        · rename_i c hc
          obtain ⟨c', hput, rfl⟩ := Option.map_eq_some_iff.mp h
          simp only [put?, lookup_setEntry, if_pos, hc, ih hput, setEntry_setEntry]
        · simp at h

/-- Where one tree can be put, every tree can. -/
theorem exists_put? {names : List String} (h : put? tree names root = some root')
    (tree' : FileTree α) : ∃ root'', put? tree' names root = some root'' := by
  induction names generalizing root root' with
  | nil => exact ⟨tree', rfl⟩
  | cons name names ih =>
    cases root with
    | file content => simp [put?] at h
    | directory es =>
      cases names with
      | nil => exact ⟨_, rfl⟩
      | cons next names =>
        simp only [put?] at h
        split at h
        · rename_i c hc
          obtain ⟨c', hput, -⟩ := Option.map_eq_some_iff.mp h
          obtain ⟨c'', hput'⟩ := ih hput
          exact ⟨.directory (setEntry name c'' es), by simp only [put?, hc, hput', Option.map_some]⟩
        · simp at h

/-- Only a directory has directories below it. -/
theorem exists_directory_of_descend? {ms : List String} {es : List (String × FileTree α)}
    (h : root.descend? ms = some (directory es)) : ∃ es', root = directory es' := by
  cases root with
  | directory es' => exact ⟨es', rfl⟩
  | file content =>
    cases ms with
    | nil => simp at h
    | cons m ms => simp [descend?_cons_file] at h

/-- Every directory of the first tree is one in the second, with at least its names. -/
def KeepsDirectories (t t' : FileTree α) : Prop :=
  ∀ ms es, t.descend? ms = some (directory es) →
    ∃ es', t'.descend? ms = some (directory es') ∧
      ∀ name, (es.lookup name).isSome → (es'.lookup name).isSome

/-- An entry may be replaced by a tree that keeps its directories. -/
theorem keepsDirectories_setEntry {name : String} {es : List (String × FileTree α)}
    (h : ∀ c, es.lookup name = some c → c.KeepsDirectories tree) :
    (directory es).KeepsDirectories (directory (setEntry name tree es)) := by
  intro ms fs hms
  cases ms with
  | nil =>
    simp only [descend?_nil, Option.some.injEq, directory.injEq] at hms
    subst hms
    refine ⟨_, rfl, fun other hother => ?_⟩
    rw [lookup_setEntry]
    split
    · rfl
    · exact hother
  | cons m ms =>
    rw [descend?_cons_directory] at hms
    rw [descend?_cons_directory, lookup_setEntry]
    by_cases hm : m = name
    · subst hm
      obtain ⟨c, hc, hdescend⟩ := Option.bind_eq_some_iff.mp hms
      rw [if_pos rfl]
      exact h c hc ms fs hdescend
    · rw [if_neg hm]
      exact ⟨fs, hms, fun _ h => h⟩

/-- Directories are kept unless one is replaced. -/
theorem keepsDirectories_put? {names : List String} (h : put? tree names root = some root')
    (hplace : ∀ es, root.descend? names ≠ some (directory es)) : root.KeepsDirectories root' := by
  have hleaf : ∀ {c : FileTree α}, (∀ es, c ≠ directory es) → c.KeepsDirectories tree := by
    intro c hc ms es hms
    obtain ⟨es', rfl⟩ := exists_directory_of_descend? hms
    exact absurd rfl (hc es')
  induction names generalizing root root' with
  | nil =>
    simp only [put?, Option.some.injEq] at h
    exact h ▸ hleaf fun es hes => hplace es (by rw [hes, descend?_nil])
  | cons name names ih =>
    cases root with
    | file content => simp [put?] at h
    | directory es =>
      simp only [descend?_cons_directory] at hplace
      cases names with
      | nil =>
        simp only [put?, Option.some.injEq] at h
        subst h
        refine keepsDirectories_setEntry fun c hc => hleaf fun fs hfs => hplace fs ?_
        rw [hc, hfs]
        rfl
      | cons next names =>
        simp only [put?] at h
        split at h
        · rename_i c hc
          obtain ⟨c', hput, rfl⟩ := Option.map_eq_some_iff.mp h
          refine keepsDirectories_setEntry fun d hd => ?_
          obtain rfl := Option.some.inj (hc.symm.trans hd)
          exact ih hput fun fs hfs => hplace fs (by rw [hc]; exact hfs)
        · simp at h

end FileTree

namespace Volume

variable {v v' : Volume}

/-- Where directories are kept, a step leads where it led. -/
theorem stepFrom_of_keeps (h : v.root.KeepsDirectories v'.root) {names names' : List String}
    {step : String} (hstep : v.stepFrom names step = some names') :
    v'.stepFrom names step = some names' := by
  unfold stepFrom at hstep ⊢
  split at hstep
  · rename_i es hes
    obtain ⟨es', hes', hlookup⟩ := h names es hes
    rw [hes']
    dsimp only
    by_cases hsome : (es.lookup step).isSome
    · rw [if_pos (hlookup step hsome)]
      rwa [if_pos hsome] at hstep
    · rw [if_neg hsome] at hstep
      split at hstep <;> rename_i hdot
      · rwa [if_pos hdot]
      · split at hstep <;> rename_i hup
        · rwa [if_neg hdot, if_pos hup]
        · simp at hstep
  · simp at hstep

theorem walk_of_keeps (h : v.root.KeepsDirectories v'.root) {names names' steps : List String}
    (hwalk : v.walk names steps = some names') : v'.walk names steps = some names' := by
  induction steps generalizing names with
  | nil => exact hwalk
  | cons step steps ih =>
    unfold walk at hwalk ih ⊢
    rw [List.foldlM_cons] at hwalk ⊢
    obtain ⟨next, hstep, hrest⟩ := Option.bind_eq_some_iff.mp hwalk
    rw [stepFrom_of_keeps h hstep]
    exact ih hrest

theorem walk_append (v : Volume) (names steps more : List String) :
    v.walk names (steps ++ more) = (v.walk names steps).bind fun ns => v.walk ns more := by
  simp [walk, List.foldlM_append]

/-- A place is a name in a directory to which the path without its last step is walked. -/
structure IsPlace (v : Volume) (p : Path) (steps names above : List String) (name : String) :
    Prop where
  names_eq : names = above ++ [name]
  steps_eq : steps = steps.dropLast ++ [name]
  text : p.text.isEmpty = false
  isName : name ≠ "." ∧ name ≠ ".."
  walk : v.walk (v.origin p) steps.dropLast = some above
  directory : ∃ es, v.root.descend? above = some (.directory es)

theorem exists_isPlace {p : Path} {steps names : List String}
    (h : v.placeFor? p steps = some names) : ∃ above name, v.IsPlace p steps names above name := by
  unfold placeFor? at h
  split at h
  · simp at h
  · rename_i name hlast
    obtain ⟨init, rfl⟩ := List.getLast?_eq_some_iff.mp hlast
    split at h
    · simp at h
    · rename_i hname
      simp only [Bool.or_eq_true, beq_iff_eq, not_or, Bool.not_eq_true] at hname
      split at h
      · rename_i above hwalk
        split at h
        · rename_i es hes
          exact ⟨above, name, (Option.some.inj h).symm, by rw [List.dropLast_concat], hname.1.1,
            ⟨hname.1.2, hname.2⟩, hwalk, es, hes⟩
        · simp at h
      · simp at h

theorem IsPlace.placeFor? {p : Path} {steps names above : List String} {name : String}
    (h : v.IsPlace p steps names above name) : v.placeFor? p steps = some names := by
  obtain ⟨es, hes⟩ := h.directory
  have hlast : steps.getLast? = some name := by rw [h.steps_eq, List.getLast?_concat]
  simp [Volume.placeFor?, hlast, h.text, h.isName, h.walk, hes, h.names_eq]

/-- A place stays one where directories are kept. -/
theorem IsPlace.of_keeps {p : Path} {steps names above : List String} {name : String}
    (h : v.IsPlace p steps names above name) (hkeeps : v.root.KeepsDirectories v'.root)
    (hcwd : v'.cwd = v.cwd) : v'.IsPlace p steps names above name where
  names_eq := h.names_eq
  steps_eq := h.steps_eq
  text := h.text
  isName := h.isName
  walk := by
    have horigin : v'.origin p = v.origin p := by rw [origin, origin, hcwd]
    rw [horigin]
    exact walk_of_keeps hkeeps h.walk
  directory := by
    obtain ⟨es, hes⟩ := h.directory
    obtain ⟨es', hes', -⟩ := hkeeps above es hes
    exact ⟨es', hes'⟩

/-- A name of a directory is a step into it. -/
theorem stepFrom_of_descend? {above : List String} {name : String} {t : FileTree ByteArray}
    (hname : name ≠ "." ∧ name ≠ "..") (h : v.root.descend? (above ++ [name]) = some t) :
    v.stepFrom above name = some (above ++ [name]) := by
  rw [FileTree.descend?_append] at h
  obtain ⟨c, hc, hchild⟩ := Option.bind_eq_some_iff.mp h
  cases c with
  | file content => simp [FileTree.descend?_cons_file] at hchild
  | directory es =>
    rw [FileTree.descend?_cons_directory] at hchild
    obtain ⟨d, hd, -⟩ := Option.bind_eq_some_iff.mp hchild
    simp [stepFrom, hc, hname, hd]

/-- Writing puts a file at a place where no directory is, and changes nothing else. -/
theorem exists_put?_of_write? {p : Path} {bytes : ByteArray} (h : v.write? p bytes = some v') :
    ∃ names above name, v.IsPlace p (rawSteps p) names above name ∧
      (∀ es, v.root.descend? names ≠ some (.directory es)) ∧
      FileTree.put? (.file bytes) names v.root = some v'.root ∧ v'.cwd = v.cwd := by
  unfold write? at h
  split at h
  · simp at h
  · rename_i names hplace
    obtain ⟨above, name, hplace⟩ := exists_isPlace hplace
    split at h
    · simp at h
    · rename_i hfree
      obtain ⟨root, hput, rfl⟩ := Option.map_eq_some_iff.mp h
      exact ⟨names, above, name, hplace, hfree, hput, rfl⟩

/-- A file that was written lies at its path. -/
theorem get?_write? {p : Path} {bytes : ByteArray} (h : v.write? p bytes = some v') :
    v'.get? p = some (.file bytes) := by
  obtain ⟨names, above, name, hplace, hfree, hput, hcwd⟩ := exists_put?_of_write? h
  have hfile : v'.root.descend? (above ++ [name]) = some (.file bytes) :=
    hplace.names_eq ▸ FileTree.descend?_put? hput
  have horigin : v'.origin p = v.origin p := by rw [origin, origin, hcwd]
  have hwalk : v'.walk (v'.origin p) (rawSteps p) = some (above ++ [name]) := by
    rw [hplace.steps_eq, walk_append, horigin,
      walk_of_keeps (FileTree.keepsDirectories_put? hput hfree) hplace.walk, Option.bind_some]
    simp [walk, stepFrom_of_descend? hplace.isName hfile]
  have hlocate : v'.locate? p = some (above ++ [name]) := by
    rw [locate?, if_neg (by simp [hplace.text]), hwalk]
  rw [get?, hlocate, Option.bind_some, hfile]

theorem kindOf_write? {p : Path} {bytes : ByteArray} (h : v.write? p bytes = some v') :
    v'.kindOf p = .file := by
  rw [kindOf, get?_write? h]

theorem read?_write? {p : Path} {bytes : ByteArray} (h : v.write? p bytes = some v') :
    v'.read? p = some bytes := by
  rw [read?, get?_write? h]

/-- Writing at a place where no directory is. -/
theorem write?_of_isPlace {p : Path} {names above : List String} {name : String}
    (h : v.IsPlace p (rawSteps p) names above name)
    (hfree : ∀ es, v.root.descend? names ≠ some (.directory es)) (bytes : ByteArray) :
    v.write? p bytes =
      (FileTree.put? (.file bytes) names v.root).map fun root => { v with root } := by
  unfold write?
  rw [h.placeFor?]
  dsimp only
  split
  · rename_i es hes
    exact absurd hes (hfree es)
  · rfl

/-- Of a file that was written nothing is left when it is written again. -/
theorem write?_write? {p : Path} {bytes : ByteArray} (h : v.write? p bytes = some v')
    (other : ByteArray) : v'.write? p other = v.write? p other := by
  obtain ⟨names, above, name, hplace, hfree, hput, hcwd⟩ := exists_put?_of_write? h
  have hplace' := hplace.of_keeps (FileTree.keepsDirectories_put? hput hfree) hcwd
  have hfree' : ∀ es, v'.root.descend? names ≠ some (.directory es) := by
    simp [FileTree.descend?_put? hput]
  rw [write?_of_isPlace hplace' hfree', write?_of_isPlace hplace hfree, FileTree.put?_put? hput,
    hcwd]

/-- Where some bytes can be written, all can. -/
theorem exists_write? {p : Path} {bytes : ByteArray} (h : v.write? p bytes = some v')
    (other : ByteArray) : ∃ w, v.write? p other = some w := by
  obtain ⟨names, above, name, hplace, hfree, hput, -⟩ := exists_put?_of_write? h
  obtain ⟨root, hput'⟩ := FileTree.exists_put? hput (.file other)
  exact ⟨{ v with root }, by rw [write?_of_isPlace hplace hfree, hput', Option.map_some]⟩

/-- Bytes behind those that were written. -/
theorem append?_of_write? {p : Path} {bytes : ByteArray} (h : v.write? p bytes = some v')
    (more : ByteArray) : v'.append? p more = v.write? p (bytes ++ more) := by
  rw [append?, read?_write? h, write?_write? h]
  rfl

/-! ### Programs -/

theorem run_writeFile (v : Volume) (p : Path) (bytes : ByteArray) :
    StateT.run (Disk.writeFile p bytes : StateM Volume (Except String PUnit)) v =
      match v.write? p bytes with
      | some w => (.ok ⟨⟩, w)
      | none => (.error refusal, v) := by
  cases h : v.write? p bytes <;> simp [Disk.writeFile, h] <;> rfl

theorem run_readFile (v : Volume) (p : Path) :
    StateT.run (Disk.readFile p : StateM Volume (Except String ByteArray)) v =
      match v.read? p with
      | some bytes => (.ok bytes, v)
      | none => (.error refusal, v) := by
  cases h : v.read? p <;> simp [Disk.readFile, h] <;> rfl

theorem run_survey {p : Path} {es : List (String × FileTree ByteArray)}
    (h : v.get? p = some (.directory es)) :
    StateT.run (Disk.survey p : StateM Volume (Except String (FileTree Path))) v =
      (.ok (FileTree.mapFiles (fun above _ => above.reverse.foldl Path.entry p) []
        (.directory es)), v) := by
  simp [Disk.survey, h]
  rfl

variable {α : Type}

theorem run_kindOf_bind (v : Volume) (p : Path) (f : EntryKind → Access (StateM Volume) α) :
    (Access.kindOf p >>= f).run.run v = (f (v.kindOf p)).run.run v := rfl

theorem run_readFile_bind {p : Path} {bytes : ByteArray} (h : v.read? p = some bytes)
    (f : Except String ByteArray → Access (StateM Volume) α) :
    ((liftM (Disk.readFile p : StateM Volume (Except String ByteArray)) :
      Access (StateM Volume) (Except String ByteArray)) >>= f).run.run v =
      (f (.ok bytes)).run.run v := by
  have hfile := run_readFile v p
  rw [h] at hfile
  change ((Disk.readFile p : StateM Volume (Except String ByteArray)) >>=
    fun r => (f r).run).run v = _
  rw [StateT.run_bind, hfile]
  rfl

theorem run_readBytes {p : Path} {bytes : ByteArray} (h : v.read? p = some bytes) :
    (Access.readBytes p : Access (StateM Volume) ByteArray).run.run v = (.ok bytes, v) := by
  rw [Access.readBytes, Access.run_attempt, run_readFile, h]
  rfl

theorem run_survey_bind {p : Path} {es : List (String × FileTree ByteArray)}
    (h : v.get? p = some (.directory es)) (fault : String → Fault)
    (f : FileTree Path → Access (StateM Volume) α) :
    (Access.attempt fault (Disk.survey p) >>= f).run.run v =
      (f (FileTree.mapFiles (fun above _ => above.reverse.foldl Path.entry p) []
        (.directory es))).run.run v := by
  change StateT.run (((Disk.survey p : StateM Volume (Except String (FileTree Path))) >>=
    fun r => pure (r.mapError fault)) >>= ExceptT.bindCont f) v = _
  rw [StateT.run_bind, StateT.run_bind, run_survey h]
  rfl

theorem run_writeText (v : Volume) (fault : String → Fault) (p : Path) (text : String) :
    (Access.writeText fault p text : Access (StateM Volume) PUnit).run.run v =
      match v.write? p text.toUTF8 with
      | some w => (.ok ⟨⟩, w)
      | none => (.error (fault refusal), v) := by
  change StateT.run ((Disk.writeFile p text.toUTF8 : StateM Volume (Except String PUnit)) >>=
    fun r => pure (r.mapError fault)) v = _
  rw [StateT.run_bind, run_writeFile]
  cases v.write? p text.toUTF8 <;> rfl

theorem run_appendFile (v : Volume) (p : Path) (bytes : ByteArray) :
    StateT.run (Disk.appendFile p bytes : StateM Volume (Except String PUnit)) v =
      match v.append? p bytes with
      | some w => (.ok ⟨⟩, w)
      | none => (.error refusal, v) := by
  cases h : v.append? p bytes <;> simp [Disk.appendFile, h] <;> rfl

/-- Portions behind what was written, as if all were written at once. -/
theorem run_appendPortions {p : Path} {bytes : ByteArray} (h : v.write? p bytes = some v')
    (xs : List Portion) : ∃ w, v.write? p (Portion.joined bytes xs) = some w ∧
      (Access.appendPortions p xs : Access (StateM Volume) PUnit).run.run v' = (.ok ⟨⟩, w) := by
  induction xs generalizing bytes v' with
  | nil => exact ⟨v', h, rfl⟩
  | cons x xs ih =>
    obtain ⟨u, hu⟩ := exists_write? h (bytes ++ x.bytes)
    have hfirst : (Access.appendPortion p x : Access (StateM Volume) PUnit).run.run v' =
        (.ok ⟨⟩, u) := by
      rw [Access.run_appendPortion, run_appendFile, append?_of_write? h, hu]
    obtain ⟨w, hw, hrest⟩ := ih hu
    exact ⟨w, hw, (Access.run_bind_of_ok hfirst _).trans hrest⟩

/-- Records that a program writes in portions, as if their text were written at once. -/
theorem run_writeRecords (v : Volume) (p : Path) (records : List (List String)) :
    (Csv.writeRecords p records : Access (StateM Volume) PUnit).run.run v =
      match v.write? p (Csv.print records).toUTF8 with
      | some w => (.ok ⟨⟩, w)
      | none => (.error (.csv refusal), v) := by
  have hcreate : (Access.writePortion p ⟨.empty, .csv⟩ : Access (StateM Volume) PUnit).run.run v =
      match v.write? p .empty with
      | some w => (.ok ⟨⟩, w)
      | none => (.error (.csv refusal), v) := by
    rw [Access.writePortion, Access.run_attempt, run_writeFile]
    cases v.write? p .empty <;> rfl
  cases hempty : v.write? p .empty with
  | some v' =>
    rw [hempty] at hcreate
    obtain ⟨w, hw, hrest⟩ := run_appendPortions hempty (Csv.recordPortions p records)
    rw [Csv.joined_recordPortions] at hw
    rw [hw]
    exact (Access.run_bind_of_ok hcreate _).trans hrest
  | none =>
    rw [hempty] at hcreate
    have hnone : v.write? p (Csv.print records).toUTF8 = none := by
      rw [Option.eq_none_iff_forall_ne_some]
      intro w hw
      obtain ⟨u, hu⟩ := exists_write? hw .empty
      simp [hempty] at hu
    rw [hnone]
    exact Access.run_bind_of_error hcreate _

/-- The text of records that a program wrote is what the file holds. -/
theorem write?_of_run_writeRecords {p : Path} {records : List (List String)}
    (h : (Csv.writeRecords p records : Access (StateM Volume) PUnit).run.run v = (.ok ⟨⟩, v')) :
    v.write? p (Csv.print records).toUTF8 = some v' := by
  rw [run_writeRecords] at h
  split at h
  · rename_i w hw
    rw [hw, (Prod.mk.inj h).2]
  · cases h

/-- A text that a program wrote is what the file holds. -/
theorem write?_of_run_writeText {fault : String → Fault} {p : Path} {text : String}
    (h : (Access.writeText fault p text : Access (StateM Volume) PUnit).run.run v = (.ok ⟨⟩, v')) :
    v.write? p text.toUTF8 = some v' := by
  rw [run_writeText] at h
  split at h
  · rename_i w hw
    rw [hw, (Prod.mk.inj h).2]
  · cases h

end Volume

end FirmwareMatch
