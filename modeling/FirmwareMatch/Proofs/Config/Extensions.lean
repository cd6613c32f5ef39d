import FirmwareMatch.Config.Basic
import Mathlib.Data.List.TakeWhile

/-
  Which files a valid configuration selects.

  A file is selected by the end of its name in lower case: something, a point, and a configured
  extension in lower case without the points at its start. Validation asks that an extension has
  something besides blanks, before any point is taken off. So an extension of points alone is valid,
  asks for nothing behind the point, and selects every name that ends in one.

  Proved:
  * `lower_eq_nil_iff`: no text vanishes in lower case.
  * `nameHasExtension_iff`: what an extension selects.
  * `wantedExtension_eq_nil_iff`: the extensions that ask for nothing.
  * `selects_iff_of_valid`: the files that a valid configuration selects.
  * `selects_bare_point`: a name without an extension, selected by a valid configuration.
-/

namespace FirmwareMatch

open Text

/-! ## Lower case -/

theorem Text.lowerChar_ne_nil (c : Char) : lowerChar c ≠ [] := by
  unfold lowerChar
  dsimp only
  split
  · simp
  · split
    · simp
    · split <;> simp

/-- No text vanishes in lower case. -/
theorem Text.lower_eq_nil_iff {cs : List Char} : lower cs = [] ↔ cs = [] := by
  cases cs with
  | nil => exact iff_of_true rfl rfl
  | cons c cs =>
    refine iff_of_false (fun h => ?_) (List.cons_ne_nil c cs)
    obtain ⟨hlow, -⟩ := List.append_eq_nil_iff.mp h
    split at hlow
    · split at hlow <;> exact absurd hlow (List.cons_ne_nil _ _)
    · exact lowerChar_ne_nil c hlow

namespace Config

/-! ## Extensions -/

/-- What a configured extension asks for behind the point: its text in lower case, without the points
    at its start. -/
def wantedExtension (ext : String) : List Char :=
  lower (ext.toList.dropWhile (· == '.'))

/-- An extension selects the names that are a stem, a point and what it asks for. -/
theorem nameHasExtension_iff {name : List Char} {ext : String} :
    nameHasExtension name ext ↔ ∃ stem, stem ≠ [] ∧ name = stem ++ '.' :: wantedExtension ext := by
  have hsuffix : suffixOf ext = '.' :: wantedExtension ext := rfl
  simp only [nameHasExtension, Bool.and_eq_true, decide_eq_true_eq, List.isSuffixOf_iff_suffix,
    hsuffix]
  constructor
  · rintro ⟨hlt, stem, rfl⟩
    refine ⟨stem, ?_, rfl⟩
    rintro rfl
    exact Nat.lt_irrefl _ hlt
  · rintro ⟨stem, hstem, rfl⟩
    refine ⟨?_, List.suffix_append stem _⟩
    have hpos := List.length_pos_iff.mpr hstem
    rw [List.length_append]
    omega

/-- An extension asks for nothing if it has nothing but points. -/
theorem wantedExtension_eq_nil_iff {ext : String} :
    wantedExtension ext = [] ↔ ext.toList = List.replicate ext.toList.length '.' := by
  rw [wantedExtension, lower_eq_nil_iff, List.dropWhile_eq_nil_iff, List.eq_replicate_iff]
  simp

/-! ## Files -/

theorem selects_iff {c : Config} {path : Path} :
    c.selects path ↔ ∃ name, path.fileName? = some name ∧ ∃ ext ∈ c.extensions, ∃ stem,
      stem ≠ [] ∧ lower name.toList = stem ++ '.' :: wantedExtension ext := by
  simp only [selects, Option.any_eq_true, selectsName, List.any_eq_true, nameHasExtension_iff]

/-- For every valid configuration: a path is selected exactly if the name of its file, in lower
    case, is a stem that is not empty, a point, and a configured extension in lower case without the
    points at its start. Of that extension something is left, unless it is one or more points. -/
theorem selects_iff_of_valid {c : Config} (hvalid : c.fault? = none) (path : Path) :
    (c.selects path ↔ ∃ name, path.fileName? = some name ∧ ∃ ext ∈ c.extensions, ∃ stem,
      stem ≠ [] ∧ lower name.toList = stem ++ '.' :: wantedExtension ext) ∧
    ∀ ext ∈ c.extensions, (wantedExtension ext = [] ↔
      ∃ n, ext.toList = List.replicate (n + 1) '.') := by
  refine ⟨selects_iff, fun ext hext => ?_⟩
  have hblank : trim ext.toList ≠ [] := ((fault?_eq_none_iff c).mp hvalid).2.1 ext hext
  rw [wantedExtension_eq_nil_iff]
  constructor
  · intro hpoints
    cases hlength : ext.toList.length with
    | zero =>
      rw [hpoints, hlength] at hblank
      exact absurd rfl hblank
    | succ n => exact ⟨n, hlength ▸ hpoints⟩
  · rintro ⟨n, hpoints⟩
    rw [hpoints, List.length_replicate]

/-- Extensions with points and in capitals; the second one selects, behind a stem with points. -/
theorem selects_iff_of_valid_pointed :
    let c : Config := { Config.standard with extensions := [".", "..Elf.S"] }
    c.fault? = none ∧ c.selects ⟨"fw/.Boot..ELF.s/."⟩ ∧
    ∃ ext ∈ c.extensions, ∃ stem, stem ≠ [] ∧
      lower ".Boot..ELF.s".toList = stem ++ '.' :: wantedExtension ext := by
  intro c
  have hvalid : c.fault? = none := by decide +kernel
  have hselects : c.selects ⟨"fw/.Boot..ELF.s/."⟩ := by decide +kernel
  obtain ⟨name, hname, hform⟩ := (selects_iff_of_valid hvalid _).1.mp hselects
  have hfile : Path.fileName? ⟨"fw/.Boot..ELF.s/."⟩ = some ".Boot..ELF.s" := by decide +kernel
  obtain rfl : ".Boot..ELF.s" = name := Option.some.inj (hfile.symm.trans hname)
  exact ⟨hvalid, hselects, hform⟩

/-- A point is a valid extension, and selects a name that has no extension. -/
theorem selects_bare_point :
    let c : Config := { Config.standard with extensions := ["."] }
    let path : Path := ⟨"notes."⟩
    c.fault? = none ∧ c.selects path ∧
    ¬ ∃ name, path.fileName? = some name ∧ ∃ ext ∈ c.extensions, ∃ stem, stem ≠ [] ∧
      wantedExtension ext ≠ [] ∧ lower name.toList = stem ++ '.' :: wantedExtension ext := by
  intro c path
  refine ⟨by decide +kernel, by decide +kernel, ?_⟩
  rintro ⟨name, -, ext, hext, stem, -, hwanted, -⟩
  obtain rfl := List.mem_singleton.mp hext
  exact hwanted (by decide +kernel)

end Config

end FirmwareMatch
