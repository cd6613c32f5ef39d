import FirmwareMatch.Proofs.Listing.Operands

/-
  Operands as segments of a text, whether its brackets match or not.

  Here the depth at a comma is counted anew, over all that stands in front of the comma. It is never
  set back: behind a closing bracket too many it stays below zero, and commas inside the next pair of
  brackets cut as well.

  What lies between two operands is commas that cut and blanks, and neither changes the depth. So
  the operands follow each other at the depths that they had in the text (`Chained`), and joined by
  commas they are cut where they were joined.

  Proved:
  * `pieces_eq_segments`: the pieces are the segments between the commas at depth zero or below.
  * `chained_pieces`, `chained_splitOperands`: pieces and operands follow each other at their depths.
  * `pieces_joined`: texts that do so are found again when they are joined.
  * `splitOperands_exact`: both for the operands of every text.
-/

namespace FirmwareMatch.Statement

open Text

/-! ## Segments -/

/-- Whether the character at an index of a text is a comma in front of which at most as many brackets
    were opened as closed. -/
def cutsAt (text : List Char) (place : Char × Nat) : Bool :=
  place.1 == ',' && depth (text.take place.2) ≤ 0

/-- The segments of a text between the commas that cut. -/
def segments (text : List Char) : List (List Char) :=
  (text.zipIdx.splitOnP (cutsAt text)).map (·.map Prod.fst)

/-- A character that does not cut is put in front of the first segment. -/
theorem map_modifyHead_cons {places : List (List (Char × Nat))} (h : places ≠ [])
    (place : Char × Nat) :
    (places.modifyHead (place :: ·)).map (·.map Prod.fst) =
      extendField place.1 (places.map (·.map Prod.fst)) := by
  cases places with
  | nil => exact absurd rfl h
  | cons first rest => rfl

/-- The depth that the splitter carries is the depth of all that it has passed. -/
theorem pieces_eq_segmentsBehind (front cs : List Char) :
    pieces (depth front) cs =
      ((cs.zipIdx front.length).splitOnP (cutsAt (front ++ cs))).map (·.map Prod.fst) := by
  induction cs generalizing front with
  | nil => simp [pieces]
  | cons c cs ih =>
    have hrest := ih (front ++ [c])
    rw [depth_concat, List.length_append, List.length_singleton, List.append_assoc,
      List.singleton_append] at hrest
    have hcut : cutsAt (front ++ c :: cs) (c, front.length) = (c == ',' && depth front ≤ 0) := by
      rw [cutsAt, List.take_left]
    rw [List.zipIdx_cons, List.splitOnP_cons_eq_if_modifyHead, hcut, pieces]
    split
    · rename_i hcomma
      have hc : c = ',' := by simpa using (Bool.and_eq_true_iff.mp hcomma).1
      rw [List.map_cons, ← hrest, hc]
      simp [nesting]
    · rw [map_modifyHead_cons (List.splitOnP_ne_nil _ _), ← hrest]

theorem pieces_eq_segments (text : List Char) : pieces 0 text = segments text :=
  pieces_eq_segmentsBehind [] text

/-! ## Segments in a row -/

/-- Segments that follow each other where `d` brackets more are open than closed in front of the
    first: none of them is cut, and a comma behind any but the last one cuts. -/
inductive Chained : Int → List (List Char) → Prop
  | nil {d : Int} : Chained d []
  | cons {d : Int} {seg : List Char} {segs : List (List Char)} (hwhole : IsWhole d seg)
      (hcut : segs ≠ [] → d + depth seg ≤ 0) (h : Chained (d + depth seg) segs) :
      Chained d (seg :: segs)

theorem chained_pieces (d : Int) (cs : List Char) : Chained d (pieces d cs) := by
  induction cs generalizing d with
  | nil => exact .cons (isWhole_nil d) (fun h => absurd rfl h) .nil
  | cons c cs ih =>
    rw [pieces]
    split
    · rename_i hcut
      simp only [Bool.and_eq_true, decide_eq_true_eq] at hcut
      refine .cons (isWhole_nil d) (fun _ => ?_) ?_
      · simpa using hcut.2
      · simpa using ih d
    · rename_i hpass
      have hcomma : c = ',' → 0 < d := by
        rintro rfl
        simpa using hpass
      have hchained := ih (d + nesting c)
      obtain ⟨f, fs, hpieces⟩ :=
        List.exists_cons_of_ne_nil (pieces_ne_nil (d + nesting c) cs)
      rw [hpieces] at hchained ⊢
      cases hchained with
      | cons hwhole hcut h =>
        rw [Int.add_assoc, ← depth_cons] at hcut h
        exact .cons (isWhole_cons.mpr ⟨hcomma, hwhole⟩) hcut h

theorem Chained.map_trim {d : Int} {segs : List (List Char)} (h : Chained d segs) :
    Chained d (segs.map Text.trim) := by
  induction h with
  | nil => exact .nil
  | @cons d seg segs hwhole hcut h ih =>
    rw [← depth_trim] at hcut ih
    exact .cons hwhole.trim (fun hne => hcut fun hnil => hne (by rw [hnil, List.map_nil])) ih

/-- Segments that hold nothing can be left out. -/
theorem Chained.filter {d : Int} {segs : List (List Char)} (h : Chained d segs) :
    Chained d (segs.filter (!·.isEmpty)) := by
  induction h with
  | nil => exact .nil
  | @cons d seg segs hwhole hcut h ih =>
    cases seg with
    | nil =>
      rw [depth_nil, Int.add_zero] at ih
      rwa [List.filter_cons_of_neg (by simp)]
    | cons c cs =>
      rw [List.filter_cons_of_pos rfl]
      exact .cons hwhole (fun hne => hcut fun hnil => hne (by rw [hnil, List.filter_nil])) ih

/-- Joined by commas with a space, segments are cut where they were joined. -/
theorem pieces_joined {d : Int} {seg : List Char} {segs : List (List Char)}
    (h : Chained d (seg :: segs)) :
    pieces d ([',', ' '].intercalate (seg :: segs)) = seg :: segs.map (' ' :: ·) := by
  induction segs generalizing d seg with
  | nil =>
    cases h with
    | cons hwhole _ _ =>
      have hpieces := pieces_append_whole hwhole []
      rw [List.append_nil, pieces, extendField_foldr, List.append_nil] at hpieces
      rw [List.intercalate_singleton, hpieces, List.map_nil]
  | cons next segs ih =>
    cases h with
    | cons hwhole hcut h =>
      have hcomma : pieces (d + depth seg) (',' :: ' ' :: [',', ' '].intercalate (next :: segs)) =
          [] :: extendField ' ' (pieces (d + depth seg) ([',', ' '].intercalate (next :: segs))) := by
        simp [pieces, nesting, hcut (List.cons_ne_nil _ _)]
      rw [List.intercalate_cons_cons, List.append_assoc, pieces_append_whole hwhole]
      simp only [List.cons_append, List.nil_append]
      rw [hcomma, extendField_foldr, List.append_nil, ih h, extendField, List.map_cons]

/-! ## Operands -/

theorem chained_splitOperands (cs : List Char) : Chained 0 (splitOperands cs) :=
  (chained_pieces 0 cs).map_trim.filter

/-- Joined by commas with a space, the operands of a text are its operands again. -/
theorem splitOperands_joined (cs : List Char) :
    splitOperands ([',', ' '].intercalate (splitOperands cs)) = splitOperands cs := by
  have hchained := chained_splitOperands cs
  have hoperands : ∀ op ∈ splitOperands cs, trim op = op ∧ op ≠ [] := fun op hop =>
    ⟨trim_of_solid (isOperand_of_mem_splitOperands hop).2, ne_nil_of_mem_splitOperands hop⟩
  generalize splitOperands cs = ops at hchained hoperands
  cases ops with
  | nil => rfl
  | cons op ops =>
    have htrimmed : (op :: ops.map (' ' :: ·)).map trim = op :: ops := by
      have hspace : ∀ next, trim (' ' :: next) = trim next :=
        trim_gap_append (show IsGap [' '] by decide)
      have hmap : (op :: ops).map trim = op :: ops := by
        rw [List.map_congr_left fun next hnext => (hoperands next hnext).1, List.map_id']
      rw [List.map_cons, List.map_map]
      simpa [Function.comp_def, hspace] using hmap
    have hkept : (op :: ops).filter (!·.isEmpty) = op :: ops :=
      List.filter_eq_self.mpr fun next hnext => by simpa using (hoperands next hnext).2
    rw [splitOperands, pieces_joined hchained, htrimmed, hkept]

/-- For every text, with matching brackets or without: its operands are the trimmed segments between
    the commas in front of which at most as many brackets were opened as closed, in their order and
    without those that hold nothing; and joined by commas with a space they are split again into
    themselves. If the text has fewer than 2^31 brackets, a number of 32 bits holds the depth at every
    place. -/
theorem splitOperands_exact (text : List Char) :
    splitOperands text = ((segments text).map trim).filter (!·.isEmpty) ∧
    splitOperands ([',', ' '].intercalate (splitOperands text)) = splitOperands text ∧
    (text.countP (fun c => isOpening c || isClosing c) < 2 ^ 31 →
      ∀ k, -2 ^ 31 < depth (text.take k) ∧ depth (text.take k) < 2 ^ 31) := by
  refine ⟨by rw [splitOperands, pieces_eq_segments], splitOperands_joined text, fun hfew k => ?_⟩
  have hdepth := natAbs_depth_le text k
  omega

/-- Behind a closing bracket too many, a comma in brackets cuts. -/
example : splitOperands "r0], [r1, r2]".toList =
    ["r0]".toList, "[r1".toList, "r2]".toList] := by decide +kernel

end FirmwareMatch.Statement
