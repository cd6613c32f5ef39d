import FirmwareMatch.Proofs.Disk.Tree
import FirmwareMatch.Proofs.Disk.Volume
import FirmwareMatch.Proofs.Text.Pieces

/-
  The paths of entries.

  The path of an entry is the path of its directory with the name behind it. It is walked as the
  path of the directory is, and then one step on; whether a slash ends the path of the directory
  does not matter. So it leads to the entry of that name in what lies at the path of the directory.

  Proved:
  * `rawSteps_entry`, `rawSteps_eq`: the steps of a path with and without a name behind it.
  * `locate?_entry`, `get?_entry`: where the path of an entry leads.
  * `get?_foldl_entry`: where names below a directory lead.
  * `get?_of_mem_files`: the files of a tree lie at the paths that their names make.
-/

namespace FirmwareMatch

open Text

/-- A name that an entry of a directory can have. -/
structure IsEntryName (name : String) : Prop where
  nonempty : name ≠ ""
  slashFree : '/' ∉ name.toList
  notDots : name ≠ "." ∧ name ≠ ".."

instance (name : String) : Decidable (IsEntryName name) :=
  decidable_of_iff (name ≠ "" ∧ '/' ∉ name.toList ∧ name ≠ "." ∧ name ≠ "..")
    ⟨fun ⟨h, h', h''⟩ => ⟨h, h', h''⟩, fun ⟨h, h', h''⟩ => ⟨h, h', h''⟩⟩

namespace FileTree

variable {α : Type} {t : FileTree α}

/-- A tree that a file system can hold: the names in a directory are distinct, and each is one that
    an entry can have. -/
inductive Storable : FileTree α → Prop
  | file (content : α) : Storable (.file content)
  | directory {es : List (String × FileTree α)} (distinct : (es.map Prod.fst).Nodup)
      (named : ∀ e ∈ es, IsEntryName e.1) (below : ∀ e ∈ es, Storable e.2) :
      Storable (.directory es)

theorem Storable.directory_inv {es : List (String × FileTree α)}
    (h : (FileTree.directory es).Storable) :
    (es.map Prod.fst).Nodup ∧ (∀ e ∈ es, IsEntryName e.1) ∧ ∀ e ∈ es, e.2.Storable := by
  cases h with
  | directory distinct named below => exact ⟨distinct, named, below⟩

theorem storable_singleton {name : String} (hname : IsEntryName name) (h : t.Storable) :
    (directory [(name, t)]).Storable :=
  .directory (List.nodup_singleton name) (by simpa using hname) (by simpa using h)

theorem Storable.wellNamed (h : t.Storable) : t.WellNamed := by
  induction h with
  | file content => exact .file content
  | directory distinct named _ ih =>
    exact .directory distinct (fun e he => (named e he).slashFree) ih

theorem isEntryName_of_mem_files (h : t.Storable) {x : List String × α} (hx : x ∈ t.files) :
    ∀ name ∈ x.1, IsEntryName name := by
  induction h generalizing x with
  | file content =>
    obtain rfl := List.mem_singleton.mp hx
    simp
  | @directory es _ named _ ih =>
    rw [files, filesOf_eq_flatMap, List.mem_flatMap] at hx
    obtain ⟨e, he, hx⟩ := hx
    obtain ⟨y, hy, rfl⟩ := List.mem_map.mp hx
    exact List.forall_mem_cons.mpr ⟨named e he, ih e he hy⟩

end FileTree

/-! ## Names behind paths -/

namespace Path

theorem isAbsolute_of_isEntryName {name : String} (h : IsEntryName name) :
    (Path.mk name).isAbsolute = false := by
  rw [isAbsolute, beq_eq_false_iff_ne]
  exact fun hhead => h.slashFree (List.mem_of_head? hhead)

/-- The characters of the path of an entry: the path of the directory, perhaps without the slash at
    its end, then a slash and the name. -/
theorem toList_entry {p : Path} {name : String} (hname : IsEntryName name) :
    (p.text = "" ∧ p.entry name = ⟨name⟩) ∨
      ∃ dir, (p.entry name).text.toList = dir ++ '/' :: name.toList ∧
        (p.text.toList = dir ++ ['/'] ∨
          p.text.toList = dir ∧ ∃ c, dir.getLast? = some c ∧ c ≠ '/') := by
  unfold entry join
  rw [isAbsolute_of_isEntryName hname, if_neg Bool.false_ne_true]
  split
  · rename_i hlast
    exact .inl ⟨by simpa using hlast, rfl⟩
  · rename_i hlast
    obtain ⟨dir, hdir⟩ := List.getLast?_eq_some_iff.mp hlast
    exact .inr ⟨dir, by simp [hdir], .inl hdir⟩
  · rename_i c hslash hlast
    exact .inr ⟨p.text.toList, by simp, .inr ⟨rfl, c, hlast, hslash⟩⟩

theorem text_entry_ne {p : Path} {name : String} (hname : IsEntryName name) :
    (p.entry name).text ≠ "" := by
  intro hempty
  rcases toList_entry (p := p) hname with ⟨-, h⟩ | ⟨dir, h, -⟩
  · exact hname.nonempty (by rwa [h] at hempty)
  · simp [hempty] at h

theorem isAbsolute_entry {p : Path} {name : String} (hname : IsEntryName name) :
    (p.entry name).isAbsolute = p.isAbsolute := by
  rcases toList_entry (p := p) hname with ⟨hp, h⟩ | ⟨dir, h, hdir⟩
  · rw [h, isAbsolute_of_isEntryName hname, isAbsolute, hp]
    rfl
  · unfold isAbsolute
    rw [h]
    rcases hdir with hdir | ⟨hdir, c, hlast, -⟩
    · rw [hdir]
      cases dir <;> rfl
    · rw [hdir]
      cases dir with
      | nil => simp at hlast
      | cons d dir => rfl

end Path

namespace Volume

variable {v : Volume} {p : Path} {name : String}

/-- The steps of a path that is followed by a name. -/
def innerSteps (p : Path) : List String :=
  ((fields (· == '/') p.text.toList).filter (!·.isEmpty)).map String.ofList

/-- The steps of a path are its fields; the last one counts even if it is empty. -/
theorem rawSteps_of_fields {init : List (List Char)} {last : List Char}
    (h : fields (· == '/') p.text.toList = init ++ [last]) :
    rawSteps p = (init.filter (!·.isEmpty)).map String.ofList ++
      [if last = [] then "." else String.ofList last] := by
  have hcons : ∃ f fs, init ++ [last] = f :: fs :=
    List.exists_cons_of_ne_nil (List.append_ne_nil_of_right_ne_nil init (List.cons_ne_nil last []))
  obtain ⟨f, fs, hcons⟩ := hcons
  unfold rawSteps
  rw [h, hcons]
  dsimp only
  rw [← hcons, List.dropLast_concat, List.getLast?_concat, List.map_append]
  cases last <;> rfl

/-- A name behind a path is one more step. -/
theorem rawSteps_entry (hname : IsEntryName name) :
    rawSteps (p.entry name) = innerSteps p ++ [name] := by
  have hfields := fields_eq_singleton (beq_eq_false_of_not_mem hname.slashFree)
  have hsingle : fields (· == '/') (Path.mk name).text.toList = [] ++ [name.toList] := hfields
  have hne : name.toList ≠ [] := by simpa using hname.nonempty
  rcases Path.toList_entry (p := p) hname with ⟨hp, h⟩ | ⟨dir, h, hdir⟩
  · rw [h, rawSteps_of_fields hsingle, if_neg hne, innerSteps, hp]
    simp
  · have hentry : fields (· == '/') (p.entry name).text.toList =
        fields (· == '/') dir ++ [name.toList] := by
      rw [h, fields_append rfl, hfields]
    have hinner : innerSteps p =
        ((fields (· == '/') dir).filter (!·.isEmpty)).map String.ofList := by
      rcases hdir with hdir | ⟨hdir, -⟩
      · simp [innerSteps, hdir, fields_append]
      · rw [innerSteps, hdir]
    rw [rawSteps_of_fields hentry, if_neg hne, hinner, String.ofList_toList]

/-- A path that ends in a slash asks for a directory in its last step. -/
theorem rawSteps_eq (p : Path) :
    rawSteps p = innerSteps p ∧ p.text.toList.getLast? ≠ some '/' ∨
      rawSteps p = innerSteps p ++ ["."] ∧ (p.text = "" ∨ p.text.toList.getLast? = some '/') := by
  obtain ⟨init, last, hfields⟩ :
      ∃ init last, fields (· == '/') p.text.toList = init ++ [last] := by
    simpa using (List.eq_nil_or_concat (fields _ _)).resolve_left (fields_ne_nil _ _)
  have hraw := rawSteps_of_fields hfields
  have hinner : innerSteps p = ((init ++ [last]).filter (!·.isEmpty)).map String.ofList := by
    rw [innerSteps, hfields]
  cases hend : p.text.toList.getLast? with
  | none =>
    have htext : p.text.toList = [] := List.getLast?_eq_none_iff.mp hend
    rw [htext] at hfields
    obtain ⟨rfl, hlast⟩ := List.append_eq_singleton_iff.mp hfields.symm |>.resolve_right (by simp)
    exact .inr ⟨by simp_all, .inl (String.toList_eq_nil_iff.mp htext)⟩
  | some c =>
    by_cases hc : c = '/'
    · subst hc
      obtain ⟨dir, hdir⟩ := List.getLast?_eq_some_iff.mp hend
      rw [hdir, fields_append rfl] at hfields
      obtain ⟨rfl, hlast⟩ := List.append_inj' hfields rfl
      exact .inr ⟨by simp_all, .inr rfl⟩
    · have hlast : last ≠ [] := by
        rintro rfl
        have hsep : (c == '/') = false := by simpa using hc
        exact getLast?_fields_ne hend hsep (hfields ▸ List.getLast?_concat)
      exact .inl ⟨by simp [hraw, hinner, hlast], by simpa using hc⟩

/-! ## Where entries lie -/

/-- The names of the directory in which the entries of a path lie. -/
def directoryAt? (v : Volume) (p : Path) : Option (List String) :=
  v.walk (v.origin p) (innerSteps p)

/-- The path of an entry leads one step on. -/
theorem locate?_entry (hname : IsEntryName name) :
    v.locate? (p.entry name) = (v.directoryAt? p).bind fun names => v.stepFrom names name := by
  have horigin : v.origin (p.entry name) = v.origin p := by
    rw [origin, origin, Path.isAbsolute_entry hname]
  rw [locate?, if_neg (by simpa using Path.text_entry_ne hname), horigin, rawSteps_entry hname,
    walk_append]
  exact Option.bind_congr fun names _ => by simp [walk]

/-- A step that asks for a directory changes nothing for a step that follows. -/
theorem stepFrom_dot_bind (names : List String) (name : String) :
    ((v.stepFrom names ".").bind fun ns => v.stepFrom ns name) = v.stepFrom names name := by
  unfold stepFrom
  cases htree : v.root.descend? names with
  | none => rfl
  | some t => cases t <;> simp [htree]

/-- The entries of a path lie in what the path leads to. -/
theorem locate?_bind_stepFrom (hp : p.text ≠ "") (name : String) :
    ((v.locate? p).bind fun names => v.stepFrom names name) =
      (v.directoryAt? p).bind fun names => v.stepFrom names name := by
  rw [locate?, if_neg (by simpa using hp), directoryAt?]
  rcases rawSteps_eq p with ⟨h, -⟩ | ⟨h, -⟩
  · rw [h]
  · rw [h, walk_append, Option.bind_assoc]
    refine Option.bind_congr fun names _ => ?_
    have hdot : v.walk names ["."] = v.stepFrom names "." := by simp [walk]
    rw [hdot, stepFrom_dot_bind]

/-- A step leads to the entry of that name. -/
theorem stepFrom_bind_descend? (hname : IsEntryName name) (names : List String) :
    ((v.stepFrom names name).bind v.root.descend?) =
      (v.root.descend? names).bind fun t => t.child? name := by
  unfold stepFrom
  cases htree : v.root.descend? names with
  | none => rfl
  | some t =>
    cases t with
    | file bytes => rfl
    | directory es =>
      simp only [hname.notDots, beq_iff_eq, if_false]
      cases hlookup : es.lookup name with
      | none => simp [FileTree.child?, FileTree.entries, hlookup]
      | some c =>
        simp [FileTree.descend?_append, htree, FileTree.descend?, FileTree.child?,
          FileTree.entries, hlookup]

/-- At the path of an entry lies the entry of that name, if there is one. -/
theorem get?_entry (hp : p.text ≠ "") (hname : IsEntryName name) :
    v.get? (p.entry name) = (v.get? p).bind fun t => t.child? name := by
  rw [get?, get?, locate?_entry hname, ← locate?_bind_stepFrom hp, Option.bind_assoc,
    Option.bind_assoc]
  exact Option.bind_congr fun names _ => stepFrom_bind_descend? hname names

/-- Below a directory, names lead to what they lead to in its tree. -/
theorem get?_foldl_entry {names : List String} (hp : p.text ≠ "")
    (hnames : ∀ name ∈ names, IsEntryName name) :
    v.get? (names.foldl Path.entry p) = (v.get? p).bind fun t => t.descend? names := by
  induction names generalizing p with
  | nil => simp
  | cons name names ih =>
    obtain ⟨hname, hnames⟩ := List.forall_mem_cons.mp hnames
    rw [List.foldl_cons, ih (Path.text_entry_ne hname) hnames, get?_entry hp hname,
      Option.bind_assoc]
    rfl

/-- Something lies only at a path that has steps. -/
theorem text_ne_of_get? {t : FileTree ByteArray} (h : v.get? p = some t) : p.text ≠ "" := by
  intro hp
  simp [get?, locate?, hp] at h

/-- Every file of the tree at a path lies where its names lead from there. -/
theorem get?_of_mem_files {t : FileTree ByteArray} (h : v.get? p = some t) (ht : t.Storable)
    {x : List String × ByteArray} (hx : x ∈ t.files) :
    v.get? (x.1.foldl Path.entry p) = some (.file x.2) := by
  rw [get?_foldl_entry (text_ne_of_get? h) (FileTree.isEntryName_of_mem_files ht hx), h,
    Option.bind_some]
  exact (FileTree.mem_files_iff ht.wellNamed).mp hx

end Volume

end FirmwareMatch
