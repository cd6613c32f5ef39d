import FirmwareMatch.Corpus.Access
import FirmwareMatch.Proofs.Disk.Volume
import FirmwareMatch.Proofs.Sorting
import FirmwareMatch.Proofs.Text.Pieces
import Mathlib.Data.Prod.Lex
import Mathlib.Data.String.Basic

/-
  What discovery finds, and in which order.

  A listing is found from the names that lead to its file, and they can be read off again: the first
  one is the project, the others are the fields of the path. So no two files give listings that tie,
  and the sorted list is the same for every order of the files.

  Proved:
  * `intercalate_slash_inj`: names without slashes can be read off a path.
  * `collect_eq`: the listings of all projects are what the files of the tree are found as.
  * `nodup_map_key`: no two files are found as listings that tie.
  * `mem_discover_iff`, `pairwise_discover`, `discover_eq_of_perm`: which listings are found, and
    that they ascend strictly, whatever the order of the files.
  * `listings_openAt`: the listings of a corpus in a directory.
-/

namespace FirmwareMatch

/-- Names without slashes can be read off the path that they make. -/
theorem intercalate_slash_inj {xs ys : List String} (hxs : xs ≠ []) (hys : ys ≠ [])
    (hx : ∀ name ∈ xs, '/' ∉ name.toList) (hy : ∀ name ∈ ys, '/' ∉ name.toList)
    (h : "/".intercalate xs = "/".intercalate ys) : xs = ys := by
  have hfields : ∀ {names : List String}, names ≠ [] → (∀ name ∈ names, '/' ∉ name.toList) →
      Text.fields (· == '/') ("/".intercalate names).toList = names.map String.toList := by
    intro names hne hslash
    rw [String.toList_intercalate]
    refine Text.fields_intercalate rfl (by simpa using hne) fun piece hpiece => ?_
    obtain ⟨name, hname, rfl⟩ := List.mem_map.mp hpiece
    exact Text.beq_eq_false_of_not_mem (hslash name hname)
  have hmap : xs.map String.toList = ys.map String.toList := by
    rw [← hfields hxs hx, ← hfields hys hy, h]
  exact List.map_injective_iff.mpr (fun _ _ => String.toList_injective) hmap

namespace FoundListing

variable {α : Type} {c : Config} {top top' : List (String × FileTree α)}

/-! ## The order of listings -/

/-- What listings are sorted by: the project, the version and the path. -/
def key (l : FoundListing α) : String ×ₗ String ×ₗ String :=
  toLex (l.project, toLex (l.version, l.path))

theorem sortsBefore_iff {a b : FoundListing α} : sortsBefore a b ↔ a.key ≤ b.key := by
  unfold sortsBefore key
  rw [Prod.Lex.toLex_le_toLex, Prod.Lex.toLex_le_toLex]
  by_cases hp : a.project = b.project
  · by_cases hv : a.version = b.version
    · simp [hp, hv]
    · simp [hp, hv, le_iff_lt_or_eq]
  · simp [hp, le_iff_lt_or_eq]

theorem sortsBefore_trans (a b c : FoundListing α) (hab : sortsBefore a b) (hbc : sortsBefore b c) :
    sortsBefore a c :=
  sortsBefore_iff.mpr ((sortsBefore_iff.mp hab).trans (sortsBefore_iff.mp hbc))

theorem sortsBefore_total (a b : FoundListing α) : sortsBefore a b || sortsBefore b a := by
  rw [Bool.or_eq_true, sortsBefore_iff, sortsBefore_iff]
  exact le_total a.key b.key

/-! ## Files that are found -/

/-- Whether a directory of that name at the top is a project. -/
def isVisible (name : String) : Bool :=
  name.toList.head? != some '.' && name != archiverDirectory

/-- Whether the names of a file lead through a project to a listing. -/
def isFound (c : Config) : List String → Bool
  | [] => false
  | project :: names => isVisible project && isListing c names

/-- The listing that a file is found as. -/
def foundAt (x : List String × α) : FoundListing α :=
  ⟨x.1.headD "", versionOf x.1.tail, "/".intercalate x.1.tail, x.2⟩

/-- The files below one entry at the top. A file at the top is in no project, and no names lead
    from there to it. -/
theorem map_foundAt_under (c : Config) (name : String) (tree : FileTree α) :
    ((tree.files.map (FileTree.under name)).filter fun x => isFound c x.1).map foundAt =
      if isProject name tree then ofProject c name tree else [] := by
  rw [List.filter_map, List.map_map]
  cases tree with
  | file content =>
    simp [FileTree.files, FileTree.under, isFound, isListing, isProject, FileTree.isDirectory]
  | directory es =>
    have hproject : isProject name (FileTree.directory es) = isVisible name := by
      simp [isProject, isVisible, FileTree.isDirectory]
    rw [hproject]
    cases hvisible : isVisible name with
    | true => simp [ofProject, isFound, FileTree.under, foundAt, hvisible, Function.comp_def]
    | false => simp [isFound, FileTree.under, hvisible, Function.comp_def]

/-- The listings of all projects are what the files of the tree are found as. -/
theorem collect_eq (c : Config) (top : List (String × FileTree α)) :
    collect c top = ((FileTree.filesOf top).filter fun x => isFound c x.1).map foundAt := by
  induction top with
  | nil => rfl
  | cons e top ih =>
    have hcons : collect c (e :: top) =
        (if isProject e.1 e.2 then ofProject c e.1 e.2 else []) ++ collect c top := by
      unfold collect
      cases hproject : isProject e.1 e.2 <;> simp [hproject]
    rw [hcons, ih, ← map_foundAt_under, FileTree.filesOf_eq_flatMap, FileTree.filesOf_eq_flatMap,
      List.flatMap_cons, List.filter_append, List.map_append]

/-- Listings of one key are found under the same names. -/
theorem names_eq_of_key_foundAt {ns ms : List String} {x y : α} (hns : isFound c ns)
    (hms : isFound c ms) (hslash : ∀ name ∈ ns, '/' ∉ name.toList)
    (hslash' : ∀ name ∈ ms, '/' ∉ name.toList) (h : (foundAt (ns, x)).key = (foundAt (ms, y)).key) :
    ns = ms := by
  obtain _ | ⟨project, ns⟩ := ns
  · simp [isFound] at hns
  obtain _ | ⟨project', ms⟩ := ms
  · simp [isFound] at hms
  have hne : ∀ {project : String} {names : List String}, isFound c (project :: names) →
      names ≠ [] := by
    rintro project _ hfound rfl
    simp [isFound, isListing] at hfound
  simp only [key, foundAt, EmbeddingLike.apply_eq_iff_eq, Prod.mk.injEq, List.headD_cons,
    List.tail_cons] at h
  rw [List.cons.injEq]
  exact ⟨h.1, intercalate_slash_inj (hne hns) (hne hms)
    (fun name hname => hslash name (List.mem_cons_of_mem _ hname))
    (fun name hname => hslash' name (List.mem_cons_of_mem _ hname)) h.2.2⟩

/-- No two files are found as listings of one key. -/
theorem nodup_map_key (h : (FileTree.directory top).WellNamed) :
    ((collect c top).map key).Nodup := by
  have hnames : ((FileTree.filesOf top).map Prod.fst).Nodup := FileTree.nodup_files h
  rw [collect_eq, List.map_map]
  refine List.Nodup.map_on (fun x hx y hy heq => ?_) ((List.Nodup.of_map _ hnames).filter _)
  obtain ⟨hx, hxfound⟩ := List.mem_filter.mp hx
  obtain ⟨hy, hyfound⟩ := List.mem_filter.mp hy
  exact List.inj_on_of_nodup_map hnames hx hy (names_eq_of_key_foundAt hxfound hyfound
    (FileTree.slashFree_of_mem_files h hx) (FileTree.slashFree_of_mem_files h hy) heq)

/-! ## Discovery -/

/-- The listings stand in strictly ascending order. -/
theorem pairwise_discover (c : Config) (h : (FileTree.directory top).WellNamed) :
    (discover c top).Pairwise fun a b => a.key < b.key := by
  have hsorted : (discover c top).Pairwise fun a b => sortsBefore a b :=
    List.pairwise_mergeSort sortsBefore_trans sortsBefore_total _
  have hkeys : (discover c top).Pairwise fun a b => a.key ≠ b.key := by
    rw [← List.pairwise_map (R := (· ≠ ·))]
    exact ((perm_discover c top).map key).nodup_iff.mpr (nodup_map_key h)
  exact hsorted.imp₂ (fun a b hle hne => lt_of_le_of_ne (sortsBefore_iff.mp hle) hne) hkeys

/-- The same files in another order have the same listings, in the same order. -/
theorem discover_eq_of_perm (c : Config) (h : (FileTree.directory top).WellNamed)
    (hsame : (FileTree.filesOf top).Perm (FileTree.filesOf top')) :
    discover c top = discover c top' := by
  refine mergeSort_eq_of_perm ?_ sortsBefore_trans sortsBefore_total fun a ha b hb hab hba => ?_
  · rw [collect_eq, collect_eq]
    exact (hsame.filter _).map _
  · exact List.inj_on_of_nodup_map (nodup_map_key h) ha hb
      (le_antisymm (sortsBefore_iff.mp hab) (sortsBefore_iff.mp hba))

/-- The listings are what the files are found as. -/
theorem mem_discover_iff {l : FoundListing α} :
    l ∈ discover c top ↔ ∃ x ∈ FileTree.filesOf top, isFound c x.1 ∧ foundAt x = l := by
  rw [(perm_discover c top).mem_iff, collect_eq, List.mem_map]
  simp only [List.mem_filter, and_assoc]

/-! ## Corpora in directories -/

/-- The names lead from the top through a project to a file whose name is that of a listing. -/
structure IsListingAt (c : Config) (top : List (String × FileTree α)) (project : String)
    (names : List String) : Prop where
  visible : project.toList.head? ≠ some '.' ∧ project ≠ "__MACOSX"
  file : ∃ content, (FileTree.directory top).descend? (project :: names) = some (.file content)
  selected : ∃ above name, names = above ++ [name] ∧ c.selectsName name

theorem isListingAt_iff (h : (FileTree.directory top).WellNamed) {project : String}
    {names : List String} :
    IsListingAt c top project names ↔ ∃ content,
      (project :: names, content) ∈ FileTree.filesOf top ∧ isFound c (project :: names) := by
  have hmem : ∀ content, (project :: names, content) ∈ FileTree.filesOf top ↔
      (FileTree.directory top).descend? (project :: names) = some (.file content) :=
    fun _ => FileTree.mem_files_iff h
  have hfound : isFound c (project :: names) ↔
      (project.toList.head? ≠ some '.' ∧ project ≠ "__MACOSX") ∧
        ∃ above name, names = above ++ [name] ∧ c.selectsName name := by
    simp only [isFound, isVisible, isListing, archiverDirectory, Bool.and_eq_true, bne_iff_ne]
    refine and_congr_right fun _ => ?_
    rcases List.eq_nil_or_concat names with rfl | ⟨above, name, rfl⟩
    · simp
    · simp
  simp only [hmem, hfound]
  constructor
  · rintro ⟨hvisible, ⟨content, hfile⟩, hselected⟩
    exact ⟨content, hfile, hvisible, hselected⟩
  · rintro ⟨content, hfile, hvisible, hselected⟩
    exact ⟨hvisible, ⟨content, hfile⟩, hselected⟩

/-- The listing as which the file below `names` in a project is found on disk. Directly in the
    directory of the project it has the version `default`. -/
def onDisk (root : Path) (project : String) (names : List String) : FoundListing ListingText where
  project := project
  version := if 2 ≤ names.length then names.headD "" else "default"
  path := "/".intercalate names
  content := .onDisk (names.foldl Path.entry (root.entry project))

theorem foundAt_cons (root : Path) (project : String) (names : List String) :
    foundAt (project :: names, .onDisk ((project :: names).foldl Path.entry root)) =
      onDisk root project names := by
  have hversion : versionOf names = if 2 ≤ names.length then names.headD "" else "default" := by
    rcases names with _ | ⟨_, _ | ⟨_, _⟩⟩ <;> simp [versionOf, defaultVersion]
  simp [foundAt, onDisk, hversion]

/-- Different files below a directory are found as different listings. -/
theorem names_eq_of_onDisk (h : (FileTree.directory top).WellNamed) {root : Path}
    {project project' : String} {names names' : List String}
    (hat : IsListingAt c top project names) (hat' : IsListingAt c top project' names')
    (heq : onDisk root project names = onDisk root project' names') :
    project :: names = project' :: names' := by
  obtain ⟨_, hmem, hfound⟩ := (isListingAt_iff h).mp hat
  obtain ⟨_, hmem', hfound'⟩ := (isListingAt_iff h).mp hat'
  rw [← foundAt_cons, ← foundAt_cons] at heq
  exact names_eq_of_key_foundAt hfound hfound' (FileTree.slashFree_of_mem_files h hmem)
    (FileTree.slashFree_of_mem_files h hmem') (congrArg key heq)

end FoundListing

namespace OpenedCorpus

open FoundListing

variable {c : Config} {root : Path} {es : List (String × FileTree ByteArray)}

/-- The tree below a directory, with the path of every file. -/
def surveyed (root : Path) (es : List (String × FileTree ByteArray)) : FileTree Path :=
  FileTree.mapFiles (fun above _ => above.reverse.foldl Path.entry root) [] (.directory es)

theorem run_openWith (unpack? : Unpacker) {v : Volume}
    (h : v.get? root = some (.directory es)) :
    (openWith unpack? root : Access (StateM Volume) OpenedCorpus).run.run v =
      (.ok (ofDirectory root (surveyed root es)), v) := by
  rw [openWith, Volume.run_kindOf_bind, Volume.kindOf, h]
  exact Volume.run_survey_bind h (.io root) fun t => pure (ofDirectory root t)

theorem filesOf_top_ofDirectory :
    FileTree.filesOf (ofDirectory root (surveyed root es)).top =
      (FileTree.filesOf es).map fun x => (x.1, .onDisk (x.1.foldl Path.entry root)) := by
  change ((surveyed root es).mapFiles (fun _ path => ListingText.onDisk path) []).files = _
  rw [surveyed, FileTree.files_mapFiles, FileTree.files_mapFiles, List.map_map]
  simp [Function.comp_def, FileTree.files]

theorem wellNamed_top_ofDirectory (h : (FileTree.directory es).WellNamed) :
    (FileTree.directory (ofDirectory root (surveyed root es)).top).WellNamed :=
  (h.mapFiles _ []).mapFiles (fun _ path => ListingText.onDisk path) []

theorem mem_listings_iff (h : (FileTree.directory es).WellNamed) {l : FoundListing ListingText} :
    l ∈ (ofDirectory root (surveyed root es)).listings c ↔
      ∃ project names, IsListingAt c es project names ∧ l = onDisk root project names := by
  rw [listings, mem_discover_iff, filesOf_top_ofDirectory]
  simp only [List.mem_map, exists_exists_and_eq_and]
  constructor
  · rintro ⟨⟨_ | ⟨project, names⟩, bytes⟩, hmem, hfound, rfl⟩
    · simp [isFound] at hfound
    · exact ⟨project, names, (isListingAt_iff h).mpr ⟨bytes, hmem, hfound⟩, foundAt_cons _ _ _⟩
  · rintro ⟨project, names, hat, rfl⟩
    obtain ⟨bytes, hmem, hfound⟩ := (isListingAt_iff h).mp hat
    exact ⟨_, hmem, hfound, foundAt_cons _ _ _⟩

/-- The listings of a corpus in a directory, for any tree of files below it and any configuration.
    Every file below a project whose name is that of a listing is found as one listing, and nothing
    else is found. The listings ascend strictly by project, version and path, so they are the same
    for every order of the entries of directories. -/
theorem listings_openAt (c : Config) {v : Volume} {root : Path}
    {es : List (String × FileTree ByteArray)} (hroot : v.get? root = some (.directory es))
    (hnamed : (FileTree.directory es).WellNamed) :
    ∃ opened : OpenedCorpus,
      (openAt root : Access (StateM Volume) OpenedCorpus).run.run v = (.ok opened, v) ∧
      (∀ project names, IsListingAt c es project names →
        onDisk root project names ∈ opened.listings c) ∧
      (∀ l ∈ opened.listings c, ∃! place : String × List String,
        IsListingAt c es place.1 place.2 ∧ l = onDisk root place.1 place.2) ∧
      ((opened.listings c).Pairwise fun a b => a.key < b.key) ∧
      ∀ {v' : Volume} {es' : List (String × FileTree ByteArray)},
        v'.get? root = some (.directory es') →
        (FileTree.directory es).Reordered (.directory es') →
        ∃ opened' : OpenedCorpus,
          (openAt root : Access (StateM Volume) OpenedCorpus).run.run v' = (.ok opened', v') ∧
          opened'.listings c = opened.listings c := by
  refine ⟨_, run_openWith _ hroot, ?_, ?_, ?_, ?_⟩
  · exact fun project names hat => (mem_listings_iff hnamed).mpr ⟨project, names, hat, rfl⟩
  · intro l hl
    obtain ⟨project, names, hat, rfl⟩ := (mem_listings_iff hnamed).mp hl
    refine ⟨(project, names), ⟨hat, rfl⟩, ?_⟩
    rintro ⟨project', names'⟩ ⟨hat', heq⟩
    obtain ⟨rfl, rfl⟩ := List.cons.inj (names_eq_of_onDisk hnamed hat hat' heq)
    rfl
  · exact pairwise_discover c (wellNamed_top_ofDirectory hnamed)
  · intro v' es' hroot' hsame
    refine ⟨_, run_openWith _ hroot', ?_⟩
    refine (discover_eq_of_perm c (wellNamed_top_ofDirectory hnamed) ?_).symm
    rw [filesOf_top_ofDirectory, filesOf_top_ofDirectory]
    exact hsame.files.map _

/-- A project with a file at its top and one of the same name in a directory `default`, beside a
    directory that is no project and a file. The entries at the top may stand the other way
    round. -/
theorem listings_openAt_default :
    let top : FileTree ByteArray := .file .empty
    let es : List (String × FileTree ByteArray) :=
      [("zephyr", .directory [("default", .directory [("top.ASM", top)]), ("top.ASM", top)]),
        (".git", .directory [("x.asm", top)]), ("notes.asm", top)]
    ∃ opened opened' : OpenedCorpus,
      (openAt ⟨"."⟩ : Access (StateM Volume) OpenedCorpus).run.run ⟨.directory es, []⟩ =
        (.ok opened, ⟨.directory es, []⟩) ∧
      (openAt ⟨"."⟩ : Access (StateM Volume) OpenedCorpus).run.run ⟨.directory es.reverse, []⟩ =
        (.ok opened', ⟨.directory es.reverse, []⟩) ∧
      ⟨"zephyr", "default", "default/top.ASM", .onDisk ⟨"./zephyr/default/top.ASM"⟩⟩ ∈
        opened.listings .standard ∧
      ⟨"zephyr", "default", "top.ASM", .onDisk ⟨"./zephyr/top.ASM"⟩⟩ ∈
        opened.listings .standard ∧
      opened'.listings .standard = opened.listings .standard := by
  intro top es
  have hroot : ∀ fs : List (String × FileTree ByteArray),
      (⟨.directory fs, []⟩ : Volume).get? ⟨"."⟩ = some (.directory fs) :=
    fun _ => rfl
  have hnamed : (FileTree.directory es).WellNamed := by
    have hone : ∀ name : String, '/' ∉ name.toList →
        (FileTree.directory [(name, top)]).WellNamed := fun name hname =>
      .directory (List.nodup_singleton name) (by simpa using hname) (by simpa using .file _)
    have hproject : (FileTree.directory [("default", .directory [("top.ASM", top)]),
        ("top.ASM", top)]).WellNamed :=
      .directory (by decide) (by decide) (by simpa using ⟨hone "top.ASM" (by decide), .file _⟩)
    exact .directory (by decide) (by decide)
      (by simpa [es] using ⟨hproject, hone "x.asm" (by decide), .file _⟩)
  obtain ⟨opened, hopen, hfound, _, _, horder⟩ := listings_openAt .standard (hroot es) hnamed
  obtain ⟨opened', hopen', hsame⟩ :=
    horder (hroot es.reverse) (.entries (List.reverse_perm es).symm)
  refine ⟨opened, opened', hopen, hopen', ?_, ?_, hsame⟩
  · have hat : IsListingAt .standard es "zephyr" ["default", "top.ASM"] :=
      ⟨by decide, ⟨_, rfl⟩, ["default"], "top.ASM", rfl, by decide +kernel⟩
    exact hfound _ _ hat
  · have hat : IsListingAt .standard es "zephyr" ["top.ASM"] :=
      ⟨by decide, ⟨_, rfl⟩, [], "top.ASM", rfl, by decide +kernel⟩
    exact hfound _ _ hat

end OpenedCorpus

end FirmwareMatch
