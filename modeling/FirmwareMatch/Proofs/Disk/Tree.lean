import FirmwareMatch.Disk.Tree
import Mathlib.Data.List.Nodup
import Mathlib.Data.List.Perm.Basic

/-
  The files of a tree and the names that lead to them.

  A directory of a file system has no name twice, and no name has a slash. In such a tree the names
  that lead to a file lead to nothing else, so the list of all files is what can be reached, each
  file once. The list depends on the order of the entries of every directory, but only in its own
  order.

  Proved:
  * `files_mapFiles`: other contents leave the names as they are.
  * `mem_files_iff`: what is listed is what the names lead to.
  * `nodup_files`: no names are listed twice.
  * `Reordered.files`: reordered directories have the same files.
-/

namespace FirmwareMatch.FileTree

variable {α β : Type} {t u : FileTree α} {es fs : List (String × FileTree α)}

/-- A property holds of every tree if it holds of files, and of a directory whenever it holds of the
    trees in it. -/
@[elab_as_elim, induction_eliminator]
theorem inductionOn {motive : FileTree α → Prop} (file : ∀ content, motive (.file content))
    (directory : ∀ es, (∀ e ∈ es, motive e.2) → motive (.directory es)) (t : FileTree α) :
    motive t :=
  @FileTree.rec α motive (fun es => ∀ e ∈ es, motive e.2) (fun e => motive e.2) file directory
    (by simp) (fun _ _ he hes => List.forall_mem_cons.mpr ⟨he, hes⟩) (fun _ _ h => h) t

/-! ## Equality -/

section

variable [DecidableEq α]

mutual

/-- Whether two trees are the same. -/
def decEq : (t u : FileTree α) → Decidable (t = u)
  | .file a, .file b => decidable_of_iff (a = b) (by simp)
  | .file _, .directory _ => isFalse nofun
  | .directory _, .file _ => isFalse nofun
  | .directory es, .directory fs =>
    match decEqEntries es fs with
    | isTrue h => isTrue (h ▸ rfl)
    | isFalse h => isFalse fun heq => h (directory.inj heq)

/-- Whether the entries of two directories are the same, in the same order. -/
def decEqEntries : (es fs : List (String × FileTree α)) → Decidable (es = fs)
  | [], [] => isTrue rfl
  | [], _ :: _ => isFalse nofun
  | _ :: _, [] => isFalse nofun
  | (name, t) :: es, (other, u) :: fs =>
    match instDecidableEqString name other, decEq t u, decEqEntries es fs with
    | isTrue hname, isTrue ht, isTrue hes => isTrue (by rw [hname, ht, hes])
    | isFalse h, _, _ => isFalse fun heq => h (Prod.mk.inj (List.cons.inj heq).1).1
    | _, isFalse h, _ => isFalse fun heq => h (Prod.mk.inj (List.cons.inj heq).1).2
    | _, _, isFalse h => isFalse fun heq => h (List.cons.inj heq).2

end

instance : DecidableEq (FileTree α) := decEq

end

/-! ## Steps and files -/

theorem descend?_cons_file (content : α) (name : String) (names : List String) :
    (file content).descend? (name :: names) = none := rfl

theorem descend?_cons_directory (es : List (String × FileTree α)) (name : String)
    (names : List String) :
    (directory es).descend? (name :: names) = (es.lookup name).bind fun c => c.descend? names := rfl

/-- A file below an entry, with the name of the entry first. -/
def under (name : String) (x : List String × α) : List String × α :=
  (name :: x.1, x.2)

theorem filesOf_eq_flatMap (es : List (String × FileTree α)) :
    filesOf es = es.flatMap fun e => e.2.files.map (under e.1) := by
  induction es with
  | nil => rfl
  | cons e es ih => rw [List.flatMap_cons, ← ih]; rfl

theorem mapEntries_eq_map (f : List String → α → β) (above : List String)
    (es : List (String × FileTree α)) :
    mapEntries f above es = es.map fun e => (e.1, e.2.mapFiles f (e.1 :: above)) := by
  induction es with
  | nil => rfl
  | cons e es ih => rw [List.map_cons, ← ih]; rfl

/-! ## Other contents -/

/-- The names stay when the contents change; what is above counts backwards. -/
theorem files_mapFiles (f : List String → α → β) (above : List String) (t : FileTree α) :
    (t.mapFiles f above).files = t.files.map fun x => (x.1, f (x.1.reverse ++ above) x.2) := by
  induction t generalizing above with
  | file content => rfl
  | directory es ih =>
    rw [mapFiles, files, files, filesOf_eq_flatMap, filesOf_eq_flatMap, mapEntries_eq_map,
      List.flatMap_map, List.map_flatMap]
    refine List.flatMap_congr fun e he => ?_
    rw [ih e he, List.map_map, List.map_map]
    simp [Function.comp_def, under]

/-! ## Well-named trees -/

/-- No directory of the tree has a name twice, and no name in it has a slash. -/
inductive WellNamed : FileTree α → Prop
  | file (content : α) : WellNamed (.file content)
  | directory {es : List (String × FileTree α)} (distinct : (es.map Prod.fst).Nodup)
      (slashFree : ∀ e ∈ es, '/' ∉ e.1.toList) (below : ∀ e ∈ es, WellNamed e.2) :
      WellNamed (.directory es)

theorem WellNamed.mapFiles (h : t.WellNamed) (f : List String → α → β) (above : List String) :
    (t.mapFiles f above).WellNamed := by
  induction h generalizing above with
  | file content => exact .file _
  | @directory es distinct slashFree _ ih =>
    rw [FileTree.mapFiles]
    refine .directory ((map_fst_mapEntries f above es).symm ▸ distinct) ?_ ?_ <;>
      rw [mapEntries_eq_map, List.forall_mem_map]
    · exact slashFree
    · exact fun e he => ih e he _

/-- Of entries with distinct names, each is the one that its name leads to. -/
theorem mem_iff_lookup (h : (es.map Prod.fst).Nodup) {name : String} :
    (name, t) ∈ es ↔ es.lookup name = some t := by
  induction es with
  | nil => simp
  | cons e es ih =>
    obtain ⟨key, u⟩ := e
    obtain ⟨hkey, hes⟩ := List.nodup_cons.mp h
    rw [List.lookup_cons, List.mem_cons]
    by_cases hname : name = key
    · subst hname
      have hout : (name, t) ∉ es := fun hmem => hkey (List.mem_map.mpr ⟨_, hmem, rfl⟩)
      simp [hout, eq_comm]
    · have hne : (name == key) = false := beq_eq_false_iff_ne.mpr hname
      simp [hname, hne, ih hes]

/-- What is listed is what the names lead to. -/
theorem mem_files_iff (h : t.WellNamed) {names : List String} {x : α} :
    (names, x) ∈ t.files ↔ t.descend? names = some (.file x) := by
  induction h generalizing names with
  | file content => cases names <;> simp [files, descend?_cons_file, eq_comm]
  | @directory es distinct _ _ ih =>
    rw [files, filesOf_eq_flatMap]
    simp only [List.mem_flatMap, List.mem_map, under, Prod.mk.injEq]
    cases names with
    | nil => simp
    | cons name names =>
      rw [descend?_cons_directory, Option.bind_eq_some_iff]
      constructor
      · rintro ⟨e, he, y, hy, hnames, rfl⟩
        obtain ⟨rfl, rfl⟩ := List.cons.inj hnames
        exact ⟨e.2, (mem_iff_lookup distinct).mp he, (ih e he).mp hy⟩
      · rintro ⟨c, hc, hdescend⟩
        have he := (mem_iff_lookup distinct).mpr hc
        exact ⟨_, he, _, (ih _ he).mpr hdescend, rfl, rfl⟩

/-- No names are listed twice. -/
theorem nodup_files (h : t.WellNamed) : (t.files.map Prod.fst).Nodup := by
  induction h with
  | file content => exact List.nodup_singleton _
  | @directory es distinct _ _ ih =>
    have hfst : ∀ e : String × FileTree α, (e.2.files.map (under e.1)).map Prod.fst =
        (e.2.files.map Prod.fst).map (e.1 :: ·) := by
      intro e
      rw [List.map_map, List.map_map]
      rfl
    rw [files, filesOf_eq_flatMap, List.map_flatMap, List.nodup_flatMap]
    simp only [hfst]
    constructor
    · exact fun e he => (ih e he).map List.cons_injective
    · -- lists that start with different names have no member in common
      refine (List.pairwise_map.mp distinct).imp fun hne => ?_
      simp only [Function.onFun, List.disjoint_left, List.mem_map]
      rintro _ ⟨_, _, rfl⟩ ⟨_, _, heq⟩
      exact hne (List.cons.inj heq).1.symm

theorem slashFree_of_mem_files (h : t.WellNamed) {x : List String × α} (hx : x ∈ t.files) :
    ∀ name ∈ x.1, '/' ∉ name.toList := by
  induction h generalizing x with
  | file content =>
    obtain rfl := List.mem_singleton.mp hx
    simp
  | @directory es _ slashFree _ ih =>
    rw [files, filesOf_eq_flatMap, List.mem_flatMap] at hx
    obtain ⟨e, he, hx⟩ := hx
    obtain ⟨y, hy, rfl⟩ := List.mem_map.mp hx
    exact List.forall_mem_cons.mpr ⟨slashFree e he, ih e he hy⟩

/-! ## Reordered directories -/

/-- The trees differ at most in the order of the entries of directories. -/
inductive Reordered : FileTree α → FileTree α → Prop
  | refl (t : FileTree α) : Reordered t t
  | trans {t u w : FileTree α} : Reordered t u → Reordered u w → Reordered t w
  | entries {es fs : List (String × FileTree α)} :
      es.Perm fs → Reordered (.directory es) (.directory fs)
  | inside {t u : FileTree α} (es fs : List (String × FileTree α)) (name : String) :
      Reordered t u → Reordered (.directory (es ++ (name, t) :: fs))
        (.directory (es ++ (name, u) :: fs))

theorem Reordered.symm (h : t.Reordered u) : u.Reordered t := by
  induction h with
  | refl t => exact .refl t
  | trans _ _ ih ih' => exact ih'.trans ih
  | entries hperm => exact .entries hperm.symm
  | inside es fs name _ ih => exact .inside es fs name ih

/-- A reordered directory is a directory. -/
theorem Reordered.exists_directory (h : (directory es).Reordered u) : ∃ fs, u = directory fs := by
  generalize ht : directory es = t at h
  induction h generalizing es with
  | refl t => exact ⟨es, ht.symm⟩
  | trans _ _ ih ih' =>
    obtain ⟨fs, rfl⟩ := ih ht
    exact ih' rfl
  | entries _ => exact ⟨_, rfl⟩
  | inside _ _ _ _ _ => exact ⟨_, rfl⟩

/-- Reordered directories have the same files, in some order. -/
theorem Reordered.files (h : Reordered t u) : t.files.Perm u.files := by
  induction h with
  | refl t => exact .refl _
  | trans _ _ ih ih' => exact ih.trans ih'
  | entries hperm =>
    rw [FileTree.files, FileTree.files, filesOf_eq_flatMap, filesOf_eq_flatMap]
    exact hperm.flatMap_right _
  | inside es fs name _ ih =>
    rw [FileTree.files, FileTree.files, filesOf_eq_flatMap, filesOf_eq_flatMap, List.flatMap_append,
      List.flatMap_append, List.flatMap_cons, List.flatMap_cons]
    exact ((ih.map _).append_right _).append_left _

end FirmwareMatch.FileTree
