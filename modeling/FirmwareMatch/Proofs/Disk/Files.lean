import FirmwareMatch.Proofs.Disk.Paths

/-
  What the files of a volume hold, and what writing changes of it.

  A file is told by the names that lead to it from the root, not by a path: one path can lead
  elsewhere once a directory is there. Making directories changes no file, and writing changes the
  one file that it names. Directories stay where they are, so several files that are written into
  one directory go to the same one.

  Proved:
  * `contentAt?_put?_below`, `contentAt?_put?_beside`: the files after a tree was put.
  * `read?_entry`: a file in a directory, told by its path and by its names.
  * `fileAt?_write?_entry`, `fileAt?_append?_entry`: the files after one was written into a
    directory, or bytes behind what it held.
  * `fileAt?_makeDirectories?`: the files, and the directory, after it was made.
-/

namespace FirmwareMatch

namespace FileTree

variable {α : Type} {t tree root root' : FileTree α}

/-- What the file below the names holds, if one is there. -/
def contentAt? (t : FileTree α) (names : List String) : Option α :=
  match t.descend? names with
  | some (.file content) => some content
  | _ => none

theorem contentAt?_cons_directory (es : List (String × FileTree α)) (name : String)
    (names : List String) :
    (directory es).contentAt? (name :: names) =
      (es.lookup name).bind fun c => c.contentAt? names := by
  unfold contentAt?
  rw [descend?_cons_directory]
  cases es.lookup name <;> rfl

theorem contentAt?_append (t : FileTree α) (names rest : List String) :
    t.contentAt? (names ++ rest) = (t.descend? names).bind fun c => c.contentAt? rest := by
  unfold contentAt?
  rw [descend?_append]
  cases t.descend? names <;> rfl

/-- Below a place that is not a directory there is nothing. -/
theorem contentAt?_append_of_not_directory {names : List String}
    (h : ∀ es, t.descend? names ≠ some (directory es)) {rest : List String} (hrest : rest ≠ []) :
    t.contentAt? (names ++ rest) = none := by
  obtain ⟨name, rest, rfl⟩ := List.exists_cons_of_ne_nil hrest
  rw [contentAt?_append]
  cases hc : t.descend? names with
  | none => rfl
  | some c =>
    cases c with
    | file content => rfl
    | directory es => exact absurd hc (h es)

/-! ## Trees that were put -/

/-- A tree is put below a name by putting it, or a changed entry, under this name. -/
theorem exists_of_put?_cons {name : String} {names : List String}
    (h : put? tree (name :: names) root = some root') :
    ∃ es sub, root = directory es ∧ root' = directory (setEntry name sub es) ∧
      (names = [] ∨ ∃ c, es.lookup name = some c ∧ put? tree names c = some sub) := by
  cases root with
  | file content => simp [put?] at h
  | directory es =>
    cases names with
    | nil =>
      simp only [put?, Option.some.injEq] at h
      exact ⟨es, tree, rfl, h.symm, .inl rfl⟩
    | cons next names =>
      simp only [put?] at h
      split at h
      · rename_i c hc
        obtain ⟨sub, hput, rfl⟩ := Option.map_eq_some_iff.mp h
        exact ⟨es, sub, rfl, rfl, .inr ⟨c, hc, hput⟩⟩
      · simp at h

/-- Where a tree was put are its files. -/
theorem contentAt?_put?_below {names : List String} (h : put? tree names root = some root')
    (rest : List String) : root'.contentAt? (names ++ rest) = tree.contentAt? rest := by
  rw [contentAt?_append, descend?_put? h, Option.bind_some]

/-- Elsewhere the files are those that were there before. -/
theorem contentAt?_put?_beside {names ms : List String} (h : put? tree names root = some root')
    (hms : ¬names <+: ms) : root'.contentAt? ms = root.contentAt? ms := by
  induction names generalizing root root' ms with
  | nil => exact absurd List.nil_prefix hms
  | cons name names ih =>
    obtain ⟨es, sub, rfl, rfl, hsub⟩ := exists_of_put?_cons h
    cases ms with
    | nil => rfl
    | cons m ms =>
      rw [contentAt?_cons_directory, contentAt?_cons_directory, lookup_setEntry]
      by_cases hm : m = name
      · subst hm
        have hrest : ¬names <+: ms := fun hprefix => hms (List.cons_prefix_cons.mpr ⟨rfl, hprefix⟩)
        obtain rfl | ⟨c, hc, hput⟩ := hsub
        · exact absurd List.nil_prefix hrest
        · rw [if_pos rfl, hc]
          exact ih hput hrest
      · rw [if_neg hm]

end FileTree

/-! ## Files of a volume -/

/-- What files hold after one more was written. -/
def overwrite (files : List String → Option ByteArray) (x : List String × ByteArray) :
    List String → Option ByteArray :=
  fun names => if names = x.1 then some x.2 else files names

/-- Of a file that is written again nothing is left. -/
theorem overwrite_overwrite (files : List String → Option ByteArray) (names : List String)
    (bytes other : ByteArray) :
    overwrite (overwrite files (names, bytes)) (names, other) = overwrite files (names, other) := by
  funext ms
  unfold overwrite
  split <;> rfl

/-- A file that is written as it was stays so. -/
theorem overwrite_eq_self {files : List String → Option ByteArray} {names : List String}
    {bytes : ByteArray} (h : files names = some bytes) : overwrite files (names, bytes) = files := by
  funext ms
  unfold overwrite
  split
  · rename_i hms
    rw [hms, h]
  · rfl

namespace Volume

variable {v w : Volume} {p : Path}

/-- What the file below the names holds, if one is there. -/
def fileAt? (v : Volume) : List String → Option ByteArray :=
  v.root.contentAt?

/-- A file in a directory is read at the path of its name. -/
theorem read?_entry {name : String} (hname : IsEntryName name) {dir : List String}
    (hdir : v.directoryAt? p = some dir) :
    v.read? (p.entry name) = v.fileAt? (dir ++ [name]) := by
  have hget : v.get? (p.entry name) = v.root.descend? (dir ++ [name]) := by
    rw [get?, locate?_entry hname, hdir, Option.bind_some, stepFrom_bind_descend? hname,
      FileTree.descend?_append]
    refine Option.bind_congr fun t _ => ?_
    cases t <;> simp [FileTree.descend?]
  rw [read?, hget, fileAt?, FileTree.contentAt?]
  rcases v.root.descend? (dir ++ [name]) with _ | ⟨bytes⟩ | ⟨es⟩ <;> rfl

/-- A directory lies at the names to which its path leads. -/
theorem directoryAt?_of_kindOf (h : v.kindOf p = .directory) :
    ∃ dir, v.directoryAt? p = some dir := by
  obtain ⟨names, hlocate⟩ : ∃ names, v.locate? p = some names := by
    cases hlocate : v.locate? p with
    | none => simp [kindOf, get?, hlocate] at h
    | some names => exact ⟨names, rfl⟩
  have hwalk : v.walk (v.origin p) (rawSteps p) = some names := by
    unfold locate? at hlocate
    split at hlocate
    · simp at hlocate
    · exact hlocate
  rcases rawSteps_eq p with ⟨hraw, -⟩ | ⟨hraw, -⟩
  · exact ⟨names, by rw [directoryAt?, ← hraw, hwalk]⟩
  · rw [hraw, walk_append] at hwalk
    obtain ⟨dir, hdir, -⟩ := Option.bind_eq_some_iff.mp hwalk
    exact ⟨dir, hdir⟩

/-- Where directories are kept, the entries of a path stay in one directory. -/
theorem directoryAt?_of_keeps (h : v.root.KeepsDirectories w.root) (hcwd : w.cwd = v.cwd)
    {dir : List String} (hdir : v.directoryAt? p = some dir) : w.directoryAt? p = some dir := by
  have horigin : w.origin p = v.origin p := by rw [origin, origin, hcwd]
  rw [directoryAt?, horigin]
  exact walk_of_keeps h hdir

/-- A file that is put where no directory is changes nothing but the file there. -/
theorem fileAt?_of_put? {names : List String} {bytes : ByteArray}
    (hput : FileTree.put? (.file bytes) names v.root = some w.root)
    (hfree : ∀ es, v.root.descend? names ≠ some (.directory es)) :
    w.fileAt? = overwrite v.fileAt? (names, bytes) := by
  funext ms
  unfold overwrite fileAt?
  by_cases hprefix : names <+: ms
  · obtain ⟨rest, rfl⟩ := hprefix
    rw [FileTree.contentAt?_put?_below hput]
    by_cases hrest : rest = []
    · subst hrest
      rw [List.append_nil, if_pos rfl]
      rfl
    · obtain ⟨r, rs, rfl⟩ := List.exists_cons_of_ne_nil hrest
      rw [if_neg (by simp), FileTree.contentAt?_append_of_not_directory hfree hrest]
      rfl
  · rw [FileTree.contentAt?_put?_beside hput hprefix, if_neg]
    rintro rfl
    exact hprefix (List.prefix_refl _)

/-- Writing an entry of a path changes one file, in the directory of the entries of this path, and
    leaves this directory where it is. -/
theorem fileAt?_write?_entry {name : String} (hname : IsEntryName name) {bytes : ByteArray}
    (h : v.write? (p.entry name) bytes = some w) :
    ∃ dir, v.directoryAt? p = some dir ∧ w.directoryAt? p = some dir ∧
      w.fileAt? = overwrite v.fileAt? (dir ++ [name], bytes) := by
  obtain ⟨names, dir, last, hplace, hfree, hput, hcwd⟩ := exists_put?_of_write? h
  have hsteps : innerSteps p = (rawSteps (p.entry name)).dropLast ∧ name = last := by
    have heq := hplace.steps_eq
    rw [rawSteps_entry hname, List.dropLast_concat] at heq
    exact ⟨by rw [rawSteps_entry hname, List.dropLast_concat], by simpa using heq⟩
  obtain ⟨hinner, rfl⟩ := hsteps
  have hdir : v.directoryAt? p = some dir := by
    have horigin : v.origin p = v.origin (p.entry name) := by
      rw [origin, origin, Path.isAbsolute_entry hname]
    rw [directoryAt?, horigin, hinner]
    exact hplace.walk
  have hkeeps : v.root.KeepsDirectories w.root := FileTree.keepsDirectories_put? hput hfree
  refine ⟨dir, hdir, directoryAt?_of_keeps hkeeps hcwd hdir, ?_⟩
  rw [← hplace.names_eq]
  exact fileAt?_of_put? hput hfree

/-- Bytes behind what an entry of a path held change this one file. -/
theorem fileAt?_append?_entry {name : String} (hname : IsEntryName name) {dir : List String}
    (hdir : v.directoryAt? p = some dir) {before bytes : ByteArray}
    (hfile : v.fileAt? (dir ++ [name]) = some before)
    (h : v.append? (p.entry name) bytes = some w) :
    w.directoryAt? p = some dir ∧
      w.fileAt? = overwrite v.fileAt? (dir ++ [name], before ++ bytes) := by
  rw [append?, read?_entry hname hdir, hfile] at h
  obtain ⟨dir', hdir', hstays, hfiles⟩ := fileAt?_write?_entry hname h
  obtain rfl := Option.some.inj (hdir.symm.trans hdir')
  exact ⟨hstays, hfiles⟩

/-! ## Directories that were made -/

/-- A directory is made at the last of the steps that a name behind its path would follow. -/
theorem innerSteps_eq_of_placeFor? {names : List String}
    (h : v.placeFor? p (if (rawSteps p).getLast? == some "." && p.text.toList.getLast? == some '/'
      then (rawSteps p).dropLast else rawSteps p) = some names) :
    v.placeFor? p (innerSteps p) = some names := by
  rcases rawSteps_eq p with ⟨hraw, hend⟩ | ⟨hraw, htext | hend⟩
  · have hslash : (p.text.toList.getLast? == some '/') = false := by simpa using hend
    rwa [hslash, Bool.and_false, if_neg Bool.false_ne_true, hraw] at h
  · obtain ⟨above, name, hplace⟩ := exists_isPlace h
    have htext' := hplace.text
    simp [htext] at htext'
  · rw [hraw, hend, List.getLast?_concat, List.dropLast_concat] at h
    simpa using h

/-- A place where something was put is the one to which the path leads. -/
theorem directoryAt?_of_isPlace {names above : List String} {name : String}
    (hplace : v.IsPlace p (innerSteps p) names above name)
    (hkeeps : v.root.KeepsDirectories w.root) (hcwd : w.cwd = v.cwd) {t : FileTree ByteArray}
    (ht : w.root.descend? names = some t) : w.directoryAt? p = some names := by
  have horigin : w.origin p = v.origin p := by rw [origin, origin, hcwd]
  have hthere : w.root.descend? (above ++ [name]) = some t := hplace.names_eq ▸ ht
  rw [directoryAt?, horigin, hplace.steps_eq, walk_append, walk_of_keeps hkeeps hplace.walk,
    Option.bind_some, hplace.names_eq]
  simp [walk, stepFrom_of_descend? hplace.isName hthere]

/-- Making a directory changes no file, and then the directory is there. -/
theorem fileAt?_makeDirectory? (h : v.makeDirectory? p = some w) :
    w.fileAt? = v.fileAt? ∧ ∃ dir, w.directoryAt? p = some dir := by
  unfold makeDirectory? at h
  dsimp only at h
  split at h
  · simp at h
  · rename_i names hplaceFor
    have hplaceFor := innerSteps_eq_of_placeFor? hplaceFor
    obtain ⟨above, name, hplace⟩ := exists_isPlace hplaceFor
    split at h
    · simp at h
    · rename_i hnothing
      obtain ⟨root, hput, rfl⟩ := Option.map_eq_some_iff.mp h
      have hfree : ∀ es, v.root.descend? names ≠ some (.directory es) := by simp [hnothing]
      constructor
      · funext ms
        unfold fileAt?
        by_cases hprefix : names <+: ms
        · obtain ⟨rest, rfl⟩ := hprefix
          rw [FileTree.contentAt?_put?_below hput, FileTree.contentAt?_append, hnothing]
          cases rest <;> rfl
        · exact FileTree.contentAt?_put?_beside hput hprefix
      · have hkeeps : v.root.KeepsDirectories root := FileTree.keepsDirectories_put? hput hfree
        exact ⟨names, directoryAt?_of_isPlace hplace hkeeps rfl (FileTree.descend?_put? hput)⟩

/-- Making directories changes no file, and then the directory is there. -/
theorem fileAt?_makeDirectories? {fuel : Nat} (h : v.makeDirectories? fuel p = some w) :
    w.fileAt? = v.fileAt? ∧ ∃ dir, w.directoryAt? p = some dir := by
  induction fuel generalizing p w with
  | zero => simp [makeDirectories?] at h
  | succ fuel ih =>
    simp only [makeDirectories?] at h
    split at h
    · rename_i hthere
      obtain rfl := Option.some.inj h
      refine ⟨rfl, ?_⟩
      rw [Bool.or_eq_true, beq_iff_eq] at hthere
      obtain hempty | hkind := hthere
      · have htext : p.text = "" := by simpa using hempty
        exact ⟨v.origin p, by simp [directoryAt?, innerSteps, htext, walk]⟩
      · exact directoryAt?_of_kindOf hkind
    · split at h
      · rename_i hmade
        obtain rfl := Option.some.inj h
        exact fileAt?_makeDirectory? hmade
      · split at h
        · simp at h
        · rename_i u habove
          obtain ⟨q, -, hq⟩ := Option.bind_eq_some_iff.mp habove
          obtain ⟨hfiles, -⟩ := ih hq
          split at h
          · rename_i hkind
            obtain rfl := Option.some.inj h
            exact ⟨hfiles, directoryAt?_of_kindOf (by simpa using hkind)⟩
          · obtain ⟨hmade, hdir⟩ := fileAt?_makeDirectory? h
            exact ⟨hmade.trans hfiles, hdir⟩

end Volume

end FirmwareMatch
