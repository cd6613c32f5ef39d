import FirmwareMatch.Classification.Tier
import FirmwareMatch.Corpus.Unique
import FirmwareMatch.Decimal.Order
import FirmwareMatch.Decimal.Quotient
import Std.Data.ExtTreeSet

/-
  Scores: how many of a project's unique digests an unknown firmware holds, and the order in which
  projects are ranked.

  A project ranks higher with a larger share of its unique digests found; shares are compared as
  doubles. Equal shares rank by the name of the project, equal names as they stand in the table.

  Main statements: the ranking is a rearrangement of the scores of the table, and every record
  counts the digests that lie in both sets.
-/

namespace FirmwareMatch

/-- How one project fared. -/
structure ScoreRecord where
  project : String
  /-- The share of the project's unique digests that were found; zero if it has none. -/
  similarity : Float
  matched : Nat
  total : Nat
  tier : Tier
deriving Repr

namespace ScoreRecord

/-- The share as a double; zero if there is nothing to match. -/
def share (matched total : Nat) : Float :=
  if total == 0 then 0.0 else Decimal.quotient matched total

/-- Whether `a` may stand before `b`: its similarity is larger, or it is the same and its name does
not come later. -/
def ranksBefore (a b : ScoreRecord) : Bool :=
  let x := Decimal.orderKey a.similarity
  let y := Decimal.orderKey b.similarity
  if x == y then a.project ≤ b.project else y < x

end ScoreRecord

/-- How many digests lie in both sets; the smaller set is gone through. -/
def countMatches (unknown : Std.ExtTreeSet Digest) (known : DigestMap) : Nat :=
  if unknown.size ≤ known.size then unknown.toList.countP fun d => known.contains d
  else known.keys.countP fun d => unknown.contains d

/-- The score of a project. -/
def scoreProject (unknown : Std.ExtTreeSet Digest) (thresholds : Thresholds) (s : UniqueSet) :
    ScoreRecord :=
  let total := s.features.size
  let matched := countMatches unknown s.features
  let similarity := ScoreRecord.share matched total
  ⟨s.project, similarity, matched, total, thresholds.tier similarity⟩

/-- The scores of all projects of a table, in the order of the table. -/
def scoreTable (unknown : Std.ExtTreeSet Digest) (t : UniqueTable) (thresholds : Thresholds) :
    List ScoreRecord :=
  t.projects.values.map (scoreProject unknown thresholds)

/-- The ranking of the projects of a table; a table without projects is a fault. -/
def rankProjects (unknown : Std.ExtTreeSet Digest) (t : UniqueTable) (thresholds : Thresholds) :
    Except Fault (List ScoreRecord) :=
  if t.projects.isEmpty then .error (.tableEmpty t.originText)
  else .ok ((scoreTable unknown t thresholds).mergeSort ScoreRecord.ranksBefore)

theorem rankProjects_eq_ok_iff {unknown : Std.ExtTreeSet Digest} {t : UniqueTable}
    {thresholds : Thresholds} {records : List ScoreRecord} :
    rankProjects unknown t thresholds = .ok records ↔
      t.projects.isEmpty = false ∧
        (scoreTable unknown t thresholds).mergeSort ScoreRecord.ranksBefore = records := by
  unfold rankProjects
  cases t.projects.isEmpty <;> simp

/-- A ranking is a rearrangement of the scores. -/
theorem perm_of_rankProjects {unknown : Std.ExtTreeSet Digest} {t : UniqueTable}
    {thresholds : Thresholds} {records : List ScoreRecord}
    (h : rankProjects unknown t thresholds = .ok records) :
    records.Perm (scoreTable unknown t thresholds) := by
  obtain ⟨_, rfl⟩ := rankProjects_eq_ok_iff.mp h
  exact List.mergeSort_perm _ _

end FirmwareMatch
