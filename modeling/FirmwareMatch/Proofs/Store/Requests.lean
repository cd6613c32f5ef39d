import FirmwareMatch.Proofs.Store.Records

/-
  The store as a map from names to projects, each of them a map from names to versions.

  Nothing but the way in which records are asked for keeps their names apart. A project is asked for
  by its name, its versions through the record that was handed out, and files and digests go to a
  version through the record that was handed out for it (`ProjectVisit`). Every point of a sequence
  of such calls is the end of a sequence of visits, of which the last may have been broken off.

  What a request hands out is what is done something to: `change name f` does `f` to it. So a record
  that is there is handed out where it stands, with everything else as it was, if for every `f` the
  new list is the old one with `f x` in the place of `x`.

  Proved:
  * `exists_split_changeNamed`, `forall_mem_changeNamed`: one request among named records.
  * `distinct_visit`, `distinct_visited`: no name comes twice, on neither level.
  * `find?_visit`, `find?_visited_of_unvisited`: what is found under a name.
  * `visited_isTwoLevelMap`: all of it, for any sequence of visits.
-/

namespace FirmwareMatch

/-! ## Visits -/

/-- What is done to a version that was handed out. -/
inductive VersionEdit
  | pushFile (file : FileRecord)
  | insertFeature (mnemonic : String) (digest : Digest)

/-- A request for a version and the edits of what it gave. -/
structure VersionVisit where
  name : String
  edits : List VersionEdit

/-- A request for a project and the requests for versions of what it gave. -/
structure ProjectVisit where
  name : String
  versions : List VersionVisit

namespace VersionRecord

/-- One edit. -/
def apply (v : VersionRecord) : VersionEdit → VersionRecord
  | .pushFile file => v.addFile file
  | .insertFeature mnemonic digest => v.addFeature mnemonic digest

/-- Edits in their order. -/
def edited (v : VersionRecord) (edits : List VersionEdit) : VersionRecord :=
  edits.foldl apply v

theorem name_edited (v : VersionRecord) (edits : List VersionEdit) :
    (v.edited edits).name = v.name := by
  refine List.foldlRecOn (motive := fun w => w.name = v.name) edits apply rfl fun w hw e _ => ?_
  cases e <;> exact hw

end VersionRecord

namespace ProjectRecord

/-- The names of the versions. -/
def versionNames (r : ProjectRecord) : List String :=
  r.versions.map VersionRecord.name

/-- One request for a version and what is done to it. -/
def visit (r : ProjectRecord) (x : VersionVisit) : ProjectRecord :=
  r.change x.name fun v => v.edited x.edits

/-- Requests for versions in their order. -/
def visited (r : ProjectRecord) (xs : List VersionVisit) : ProjectRecord :=
  xs.foldl visit r

theorem name_visited (r : ProjectRecord) (xs : List VersionVisit) :
    (r.visited xs).name = r.name := by
  refine List.foldlRecOn (motive := fun q => q.name = r.name) xs visit rfl fun q hq x _ => ?_
  exact hq

theorem versionNames_visit (r : ProjectRecord) (x : VersionVisit) :
    (r.visit x).versionNames = withName x.name r.versionNames :=
  map_name_changeNamed (fun v => v.name_edited x.edits) rfl

theorem nodup_versionNames_visited {r : ProjectRecord} (h : r.versionNames.Nodup)
    (xs : List VersionVisit) : (r.visited xs).versionNames.Nodup := by
  refine List.foldlRecOn (motive := fun q => q.versionNames.Nodup) xs visit h fun q hq x _ => ?_
  rw [versionNames_visit]
  exact nodup_withName hq

end ProjectRecord

namespace FeatureStore

/-- One request for a project and what is done to it. -/
def visit (s : FeatureStore) (x : ProjectVisit) : FeatureStore :=
  s.change x.name fun r => r.visited x.versions

/-- Requests for projects in their order. -/
def visited (s : FeatureStore) (xs : List ProjectVisit) : FeatureStore :=
  xs.foldl visit s

end FeatureStore

/-! ## One request -/

section Named

variable {α : Type} {nameOf : α → String} {name : String} {fresh : α} {f : α → α}

theorem forall_mem_changeNamed {P : α → Prop} {xs : List α} (hxs : ∀ x ∈ xs, P x)
    (hfresh : P fresh) (hf : ∀ x, P x → P (f x)) :
    ∀ x ∈ changeNamed nameOf name fresh f xs, P x := by
  induction xs with
  | nil => simpa [changeNamed] using hf fresh hfresh
  | cons x xs ih =>
    obtain ⟨hx, hxs⟩ := List.forall_mem_cons.mp hxs
    by_cases hname : nameOf x = name
    · rw [changeNamed, if_pos hname]
      exact List.forall_mem_cons.mpr ⟨hf x hx, hxs⟩
    · rw [changeNamed, if_neg hname]
      exact List.forall_mem_cons.mpr ⟨hx, ih hxs⟩

/-- Where names are distinct, the record of a name is changed where it stands, and no other. -/
theorem exists_split_changeNamed {xs : List α} (hnodup : (xs.map nameOf).Nodup) {x : α}
    (hx : x ∈ xs) :
    ∃ before after, xs = before ++ x :: after ∧
      ∀ f, changeNamed nameOf (nameOf x) fresh f xs = before ++ f x :: after := by
  obtain ⟨before, after, rfl⟩ := List.append_of_mem hx
  have hbefore : ∀ y ∈ before, nameOf y ≠ nameOf x := by
    rw [List.map_append, List.map_cons, List.nodup_append] at hnodup
    exact fun y hy => hnodup.2.2 _ (List.mem_map_of_mem hy) _ List.mem_cons_self
  exact ⟨before, after, rfl, fun f => changeNamed_append hbefore rfl⟩

end Named

namespace FeatureStore

/-! ## Names -/

/-- No two projects have one name, and no two versions of a project. -/
def IsDistinct (s : FeatureStore) : Prop :=
  s.projectNames.Nodup ∧ ∀ r ∈ s.projects, r.versionNames.Nodup

theorem distinct_empty (generatedAt : String) : (empty generatedAt).IsDistinct :=
  ⟨List.nodup_nil, by simp [empty]⟩

theorem distinct_visit {s : FeatureStore} (h : s.IsDistinct) (x : ProjectVisit) :
    (s.visit x).IsDistinct := by
  constructor
  · have hnames : (s.visit x).projectNames = withName x.name s.projectNames :=
      map_name_changeNamed (fun r => r.name_visited x.versions) rfl
    rw [hnames]
    exact nodup_withName h.1
  · exact forall_mem_changeNamed h.2 List.nodup_nil
      fun _ hr => ProjectRecord.nodup_versionNames_visited hr x.versions

theorem distinct_visited {s : FeatureStore} (h : s.IsDistinct) (xs : List ProjectVisit) :
    (s.visited xs).IsDistinct :=
  List.foldlRecOn (motive := IsDistinct) xs visit h fun _ hs x _ => distinct_visit hs x

/-! ## What is found -/

/-- After a visit the record is found with what was done to it. -/
theorem find?_visit (s : FeatureStore) (x : ProjectVisit) :
    (s.visit x).find? x.name =
      some (((s.find? x.name).getD (.fresh x.name)).visited x.versions) :=
  findNamed?_changeNamed (fun r => r.name_visited x.versions) rfl

/-- What is found under a name is left alone by visits of other names. -/
theorem find?_visited_of_unvisited {xs : List ProjectVisit} {name : String}
    (h : ∀ x ∈ xs, x.name ≠ name) (s : FeatureStore) :
    (s.visited xs).find? name = s.find? name := by
  refine List.foldlRecOn (motive := fun t => t.find? name = s.find? name) xs visit rfl
    fun t ht x hx => ?_
  rw [← ht]
  exact findNamed?_changeNamed_of_ne (fun r => r.name_visited x.versions) rfl (h x hx)

/-! ## A map of maps -/

/-- How a store answers requests if it is a map from names to projects and these are maps from names
    to versions. `f` is what is done to the record that is handed out; nothing is done by `id`. -/
structure IsTwoLevelMap (s : FeatureStore) : Prop where
  /-- No name comes twice. -/
  distinct : s.IsDistinct
  /-- A project that is there is handed out where it stands, and nothing else changes. -/
  project_found : ∀ r ∈ s.projects, s.change r.name id = s ∧
    ∃ before after, s.projects = before ++ r :: after ∧
      ∀ f, s.change r.name f = { s with projects := before ++ f r :: after }
  /-- For a new name an empty project is put at the end. -/
  project_made : ∀ name, name ∉ s.projectNames → ∀ f,
    s.change name f = { s with projects := s.projects ++ [f ⟨name, []⟩] }
  /-- A version that is there is handed out where it stands, and nothing else changes. -/
  version_found : ∀ r ∈ s.projects, ∀ v ∈ r.versions, s.changeVersion r.name v.name id = s ∧
    ∃ before after, r.versions = before ++ v :: after ∧
      ∀ f, r.change v.name f = { r with versions := before ++ f v :: after }
  /-- For a new name an empty version is put at the end. -/
  version_made : ∀ r ∈ s.projects, ∀ name, name ∉ r.versionNames → ∀ f,
    r.change name f = { r with versions := r.versions ++ [f ⟨name, [], ∅⟩] }

/-- Distinct names are all that it takes. -/
theorem isTwoLevelMap_of_distinct {s : FeatureStore} (h : s.IsDistinct) : s.IsTwoLevelMap := by
  have hproject : ∀ r ∈ s.projects, ∃ before after, s.projects = before ++ r :: after ∧
      ∀ f, s.change r.name f = { s with projects := before ++ f r :: after } := by
    intro r hr
    obtain ⟨before, after, hsplit, hchange⟩ := exists_split_changeNamed h.1 hr
    exact ⟨before, after, hsplit, fun f => congrArg (fun rs => { s with projects := rs })
      (hchange f)⟩
  have hversion : ∀ r ∈ s.projects, ∀ v ∈ r.versions,
      ∃ before after, r.versions = before ++ v :: after ∧
        ∀ f, r.change v.name f = { r with versions := before ++ f v :: after } := by
    intro r hr v hv
    obtain ⟨before, after, hsplit, hchange⟩ := exists_split_changeNamed (h.2 r hr) hv
    exact ⟨before, after, hsplit, fun f => congrArg (fun vs => { r with versions := vs })
      (hchange f)⟩
  -- what is handed out and left as it is leaves the store as it is
  have hkept : ∀ r ∈ s.projects, ∀ f, f r = r → s.change r.name f = s := by
    intro r hr f hf
    obtain ⟨before, after, hsplit, hchange⟩ := hproject r hr
    rw [hchange, hf, ← hsplit]
  refine ⟨h, fun r hr => ⟨hkept r hr id rfl, hproject r hr⟩, fun name hname f => ?_,
    fun r hr v hv => ⟨hkept r hr _ ?_, hversion r hr v hv⟩, fun r _ name hname f => ?_⟩
  · have habsent : ∀ r ∈ s.projects, r.name ≠ name :=
      fun r hr heq => hname (heq ▸ List.mem_map_of_mem hr)
    exact congrArg (fun rs => { s with projects := rs }) (changeNamed_of_absent habsent)
  · obtain ⟨before, after, hsplit, hchange⟩ := hversion r hr v hv
    rw [hchange, id, ← hsplit]
  · have habsent : ∀ v ∈ r.versions, v.name ≠ name :=
      fun v hv heq => hname (heq ▸ List.mem_map_of_mem hv)
    exact congrArg (fun vs => { r with versions := vs }) (changeNamed_of_absent habsent)

/-- After any sequence of visits of an empty store it is a map from names to projects, and these are
    maps from names to versions. Under a name that was never asked for nothing is found; otherwise
    it is the record that the last request for the name handed out, with everything that was done
    to it. -/
theorem visited_isTwoLevelMap (generatedAt : String) (xs : List ProjectVisit) :
    let s := (empty generatedAt).visited xs
    s.IsTwoLevelMap ∧
      (∀ name, (∀ x ∈ xs, x.name ≠ name) → s.find? name = none) ∧
      ∀ before x after, xs = before ++ x :: after → (∀ y ∈ after, y.name ≠ x.name) →
        let given := (((empty generatedAt).visited before).find? x.name).getD ⟨x.name, []⟩
        s.find? x.name = some (given.visited x.versions) := by
  refine ⟨isTwoLevelMap_of_distinct (distinct_visited (distinct_empty generatedAt) xs), ?_, ?_⟩
  · intro name h
    exact find?_visited_of_unvisited h (empty generatedAt)
  · rintro before x after rfl hafter
    have hvisits : (empty generatedAt).visited (before ++ x :: after) =
        (((empty generatedAt).visited before).visit x).visited after :=
      List.foldl_append
    rw [hvisits, find?_visited_of_unvisited hafter]
    exact find?_visit _ x

/-- Two visits of one project with another one between them. The second visit finds the version of
    the first with its file and its digest, puts another digest in its place, and makes a version. -/
theorem visited_isTwoLevelMap_again :
    let file : FileRecord := ⟨"v1/fw.asm", "", 1, 0⟩
    let x : ProjectVisit := ⟨"alpha", [⟨"v1", [.pushFile file, .insertFeature "nop" "old"]⟩]⟩
    let y : ProjectVisit := ⟨"beta", []⟩
    let z : ProjectVisit := ⟨"alpha", [⟨"v1", [.insertFeature "nop" "new"]⟩, ⟨"v2", []⟩]⟩
    let s := (empty "now").visited [x, y, z]
    s.IsTwoLevelMap ∧ s.projectNames = ["alpha", "beta"] ∧ s.find? "gamma" = none ∧
    ∃ r v, s.find? "alpha" = some r ∧ r.versions = [v, .fresh "v2"] ∧ v.name = "v1" ∧
      v.files = [file] ∧ v.features.toList = [("nop", "new")] := by
  intro file x y z s
  obtain ⟨hmap, hnone, hlast⟩ := visited_isTwoLevelMap "now" [x, y, z]
  let given := (((empty "now").visited [x, y]).find? "alpha").getD ⟨"alpha", []⟩
  have halpha : s.find? "alpha" = some (given.visited z.versions) :=
    hlast [x, y] z [] rfl (by simp)
  exact ⟨hmap, rfl, hnone "gamma" (by decide), _, _, halpha, rfl, rfl, rfl, rfl⟩

end FeatureStore

end FirmwareMatch
