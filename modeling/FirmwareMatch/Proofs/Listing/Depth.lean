import FirmwareMatch.Listing.Statement
import FirmwareMatch.Proofs.Text.Pieces

/-
  The depth of brackets, and texts that no comma cuts.

  The splitter carries one number through a text, to which every opening bracket adds one and from
  which every closing one takes one off, whatever their kinds. The depth is this number, counted over
  a text as a whole. A comma cuts where the depth in front of it is zero or below, so a text is whole
  if the depth is above zero in front of each of its commas.

  Proved:
  * `depth_append`, `depth_cons`, `depth_trim`: the depth of texts that were put together.
  * `natAbs_depth_le`: the depth is at most the number of brackets.
  * `isWhole_cons`, `IsWhole.trim`: whole texts, character by character.
  * `pieces_append_whole`: a whole text is not cut, and what follows it is cut at the depth behind it.
-/

namespace FirmwareMatch.Statement

open Text

/-! ## Depth -/

/-- Whether a character opens a bracket. -/
def isOpening (c : Char) : Bool :=
  c == '[' || c == '\x7b' || c == '(' || c == '<'

/-- Whether a character closes a bracket. -/
def isClosing (c : Char) : Bool :=
  c == ']' || c == '\x7d' || c == ')' || c == '>'

/-- How many more brackets a text opens than it closes. -/
def depth (cs : List Char) : Int :=
  (cs.countP isOpening : Int) - cs.countP isClosing

@[simp] theorem depth_nil : depth [] = 0 := rfl

theorem depth_append (cs ds : List Char) : depth (cs ++ ds) = depth cs + depth ds := by
  simp only [depth, List.countP_append]
  omega

theorem isClosing_of_isOpening {c : Char} (h : isOpening c) : isClosing c = false := by
  simp only [isOpening, Bool.or_eq_true, beq_iff_eq] at h
  rcases h with ((rfl | rfl) | rfl) | rfl <;> decide

/-- What a character adds to the depth is what the splitter adds for it. -/
theorem depth_cons (c : Char) (cs : List Char) : depth (c :: cs) = nesting c + depth cs := by
  have hnesting : nesting c = if isOpening c then 1 else if isClosing c then -1 else 0 := rfl
  rw [hnesting]
  unfold depth
  rw [List.countP_cons, List.countP_cons]
  cases hopen : isOpening c with
  | true =>
    rw [isClosing_of_isOpening hopen]
    simp only [if_true, Bool.false_eq_true, if_false]
    omega
  | false =>
    cases isClosing c with
    | true =>
      simp only [if_true, Bool.false_eq_true, if_false]
      omega
    | false => simp

theorem depth_concat (cs : List Char) (c : Char) : depth (cs ++ [c]) = depth cs + nesting c := by
  rw [depth_append, depth_cons, depth_nil, Int.add_zero]

/-- No blank is a bracket or a comma. -/
theorem ne_of_isBlank {c : Char} (h : isBlank c) :
    c ≠ '[' ∧ c ≠ '\x7b' ∧ c ≠ '(' ∧ c ≠ '<' ∧ c ≠ ']' ∧ c ≠ '\x7d' ∧ c ≠ ')' ∧ c ≠ '>' ∧
      c ≠ ',' := by
  refine ⟨?_, ?_, ?_, ?_, ?_, ?_, ?_, ?_, ?_⟩ <;> (rintro rfl; exact absurd h (by decide))

theorem depth_of_gap {gap : List Char} (h : IsGap gap) : depth gap = 0 := by
  induction gap with
  | nil => rfl
  | cons c gap ih =>
    obtain ⟨hc, hgap⟩ := List.forall_mem_cons.mp h
    rw [depth_cons, ih hgap]
    simp [nesting, ne_of_isBlank hc]

theorem depth_trim (cs : List Char) : depth (trim cs) = depth cs := by
  obtain ⟨lead, tail, hlead, htail, hcs⟩ := exists_gaps_trim cs
  conv_rhs => rw [hcs, depth_append, depth_append, depth_of_gap hlead, depth_of_gap htail]
  omega

/-- No part in front of a text is deeper than the text has brackets. -/
theorem natAbs_depth_le (cs : List Char) (k : Nat) :
    (depth (cs.take k)).natAbs ≤ cs.countP fun c => isOpening c || isClosing c := by
  have hprefix : (cs.take k).countP (fun c => isOpening c || isClosing c) ≤
      cs.countP fun c => isOpening c || isClosing c :=
    (List.take_sublist k cs).countP_le
  have hopen : (cs.take k).countP isOpening ≤
      (cs.take k).countP fun c => isOpening c || isClosing c :=
    List.countP_mono_left fun c _ h => by simp [h]
  have hclose : (cs.take k).countP isClosing ≤
      (cs.take k).countP fun c => isOpening c || isClosing c :=
    List.countP_mono_left fun c _ h => by simp [h]
  unfold depth
  omega

/-! ## Whole texts -/

theorem extendField_foldr (cs f : List Char) (fs : List (List Char)) :
    cs.foldr extendField (f :: fs) = (cs ++ f) :: fs := by
  induction cs with
  | nil => rfl
  | cons c cs ih => rw [List.foldr_cons, ih, extendField, List.cons_append]

theorem pieces_ne_nil (depth : Int) (cs : List Char) : pieces depth cs ≠ [] := by
  cases cs with
  | nil => simp [pieces]
  | cons c cs =>
    rw [pieces]
    split
    · simp
    · cases pieces (depth + nesting c) cs <;> simp [extendField]

/-- No comma of a text cuts it where `d` brackets more are open than closed in front of it. -/
def IsWhole (d : Int) (cs : List Char) : Prop :=
  ∀ front back, cs = front ++ ',' :: back → 0 < d + depth front

theorem isWhole_nil (d : Int) : IsWhole d [] := by
  intro front back h
  simp at h

theorem isWhole_cons {d : Int} {c : Char} {cs : List Char} :
    IsWhole d (c :: cs) ↔ (c = ',' → 0 < d) ∧ IsWhole (d + nesting c) cs := by
  constructor
  · refine fun h => ⟨fun hc => ?_, fun front back hcs => ?_⟩
    · simpa using h [] cs (by rw [hc, List.nil_append])
    · have hfront := h (c :: front) back (by rw [hcs, List.cons_append])
      rw [depth_cons] at hfront
      omega
  · rintro ⟨hcomma, hcs⟩ front back h
    cases front with
    | nil =>
      rw [List.nil_append, List.cons.injEq] at h
      simpa using hcomma h.1
    | cons e front =>
      rw [List.cons_append, List.cons.injEq] at h
      have hfront := hcs front back h.2
      rw [depth_cons, ← h.1]
      omega

/-- A whole text is not cut, and what follows it is cut at the depth behind it. -/
theorem pieces_append_whole {d : Int} {cs : List Char} (h : IsWhole d cs) (rest : List Char) :
    pieces d (cs ++ rest) = cs.foldr extendField (pieces (d + depth cs) rest) := by
  induction cs generalizing d with
  | nil => simp
  | cons c cs ih =>
    obtain ⟨hcomma, hcs⟩ := isWhole_cons.mp h
    have hpass : ¬ (c == ',' && decide (d ≤ 0)) = true := by
      rw [Bool.and_eq_true, beq_iff_eq, decide_eq_true_eq]
      rintro ⟨hc, hd⟩
      exact absurd (hcomma hc) (by omega)
    rw [List.cons_append, pieces, if_neg hpass, ih hcs, List.foldr_cons, depth_cons, Int.add_assoc]

theorem IsWhole.trim {d : Int} {cs : List Char} (h : IsWhole d cs) : IsWhole d (trim cs) := by
  obtain ⟨lead, tail, hlead, -, hcs⟩ := exists_gaps_trim cs
  intro front back htrim
  have hfront := h (lead ++ front) (back ++ tail) (by
    conv_lhs => rw [hcs, htrim]
    simp)
  rwa [depth_append, depth_of_gap hlead, Int.zero_add] at hfront

end FirmwareMatch.Statement
