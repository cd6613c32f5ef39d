import FirmwareMatch.Listing.Line
import FirmwareMatch.Proofs.Text.Pieces

/-
  Lines with indentation, blanks behind what they say, and a comment.

  What a line says is found again, however it is indented and whatever comment follows, if it
  starts no comment itself.

  Proved:
  * `cutComment_append`: a plain text is passed over when a comment is looked for.
  * `bare_of_written`, `bare_of_idle`: what is left of a line.
  * `bare_append_tail`, `bare_indent`: what stands around a line does not matter.
  * `bare_behind`: what is left of a line behind its first part.
  * `bare_dropReturn`: nor does a carriage return at its end.
-/

namespace FirmwareMatch.Line

open Text

/-! ## Plain texts and comments -/

/-- A text in which no comment starts, wherever it stands. -/
structure IsPlain (cs : List Char) : Prop where
  semicolon : ';' ∉ cs
  sign : '@' ∉ cs
  slashes : ¬ ['/', '/'] <:+: cs

instance (cs : List Char) : Decidable (IsPlain cs) :=
  decidable_of_iff (';' ∉ cs ∧ '@' ∉ cs ∧ ¬ ['/', '/'] <:+: cs)
    ⟨fun h => ⟨h.1, h.2.1, h.2.2⟩, fun h => ⟨h.semicolon, h.sign, h.slashes⟩⟩

/-- What may follow on a line: blanks, and possibly a comment. A comment that starts with `@`
    stands behind a blank of ASCII. -/
inductive IsTail : List Char → Prop
  | gap {gap : List Char} (h : IsGap gap) : IsTail gap
  | semicolon {gap : List Char} (h : IsGap gap) (rest : List Char) : IsTail (gap ++ ';' :: rest)
  | slashes {gap : List Char} (h : IsGap gap) (rest : List Char) :
      IsTail (gap ++ '/' :: '/' :: rest)
  | sign {gap : List Char} {c : Char} (h : IsGap gap) (hc : isAsciiBlank c) (rest : List Char) :
      IsTail (gap ++ c :: '@' :: rest)

/-- A line that says `payload`. Slashes start a comment where the first two of them stand, so
    none may follow a slash. -/
def IsWritten (payload raw : List Char) : Prop :=
  ∃ lead tail, IsGap lead ∧ IsTail tail ∧
    (payload.getLast? = some '/' → tail.head? ≠ some '/') ∧ raw = lead ++ (payload ++ tail)

/-- A line that says nothing. -/
def IsIdle (raw : List Char) : Prop :=
  IsTail raw ∨ ∃ rest, raw = '@' :: rest

theorem isPlain_cons {c : Char} {cs : List Char} :
    IsPlain (c :: cs) ↔
      c ≠ ';' ∧ c ≠ '@' ∧ ¬ (c = '/' ∧ cs.head? = some '/') ∧ IsPlain cs := by
  have hslashes : ['/', '/'] <:+: c :: cs ↔
      (c = '/' ∧ cs.head? = some '/') ∨ ['/', '/'] <:+: cs := by
    rw [List.infix_cons_iff, List.cons_prefix_cons, Eq.comm (a := '/')]
    cases cs with
    | nil => simp
    | cons d ds => simp [List.cons_prefix_cons, Eq.comm (a := '/')]
  constructor
  · rintro ⟨hsemicolon, hsign, hpair⟩
    rw [hslashes, not_or] at hpair
    simp only [List.mem_cons, not_or] at hsemicolon hsign
    exact ⟨Ne.symm hsemicolon.1, Ne.symm hsign.1, hpair.1,
      hsemicolon.2, hsign.2, hpair.2⟩
  · rintro ⟨hsemicolon, hsign, hhead, hcs⟩
    refine ⟨?_, ?_, ?_⟩
    · simp [hsemicolon.symm, hcs.semicolon]
    · simp [hsign.symm, hcs.sign]
    · rw [hslashes, not_or]
      exact ⟨hhead, hcs.slashes⟩

theorem isPlain_nil : IsPlain [] := by
  constructor <;> simp

theorem IsPlain.append {cs ds : List Char} (hcs : IsPlain cs) (hds : IsPlain ds)
    (hjoin : cs.getLast? = some '/' → ds.head? ≠ some '/') : IsPlain (cs ++ ds) := by
  induction cs with
  | nil => exact hds
  | cons c cs ih =>
    rw [isPlain_cons] at hcs
    obtain ⟨hsemicolon, hsign, hhead, hrest⟩ := hcs
    rw [List.cons_append, isPlain_cons]
    cases cs with
    | nil =>
      refine ⟨hsemicolon, hsign, ?_, hds⟩
      rintro ⟨rfl, hd⟩
      exact hjoin rfl hd
    | cons d cs =>
      exact ⟨hsemicolon, hsign, hhead, ih hrest fun hlast => hjoin (by simpa using hlast)⟩

/-- A text without any of the characters that start comments is plain. -/
theorem isPlain_of_forall {cs : List Char} (h : ∀ c ∈ cs, c ≠ ';' ∧ c ≠ '@' ∧ c ≠ '/') :
    IsPlain cs := by
  refine ⟨fun hc => (h _ hc).1 rfl, fun hc => (h _ hc).2.1 rfl, fun hc => ?_⟩
  exact (h '/' (hc.subset List.mem_cons_self)).2.2 rfl

theorem isPlain_of_gap {gap : List Char} (h : IsGap gap) : IsPlain gap := by
  apply isPlain_of_forall
  intro c hc
  have hblank := h c hc
  refine ⟨?_, ?_, ?_⟩ <;> (rintro rfl; exact absurd hblank (by decide))

theorem getLast?_ne_slash_of_gap {gap : List Char} (h : IsGap gap) : gap.getLast? ≠ some '/' :=
  fun heq => absurd (h '/' (List.mem_of_getLast? heq)) (by decide)

theorem head?_ne_slash_of_gap {gap : List Char} (h : IsGap gap) : gap.head? ≠ some '/' :=
  fun heq => absurd (h '/' (List.mem_of_head? heq)) (by decide)

/-- Blanks keep plain texts apart. -/
theorem isPlain_gap_append {gap cs : List Char} (hgap : IsGap gap) (hcs : IsPlain cs) :
    IsPlain (gap ++ cs) :=
  (isPlain_of_gap hgap).append hcs fun heq => absurd heq (getLast?_ne_slash_of_gap hgap)

theorem IsPlain.append_gap {cs gap ds : List Char} (hcs : IsPlain cs) (hgap : IsGap gap)
    (hne : gap ≠ []) (hds : IsPlain ds) : IsPlain (cs ++ (gap ++ ds)) := by
  refine hcs.append (isPlain_gap_append hgap hds) fun _ => ?_
  obtain ⟨b, rest, rfl⟩ := List.exists_cons_of_ne_nil hne
  exact fun heq => head?_ne_slash_of_gap hgap heq

/-! ## Cutting comments off -/

/-- A plain text is passed over; what follows starts a comment as if its last character stood
    before. -/
theorem cutComment_append {cs : List Char} (h : IsPlain cs) (ds : List Char)
    (hjoin : cs.getLast? = some '/' → ds.head? ≠ some '/') (free : Bool) :
    cutComment free (cs ++ ds) =
      cs ++ cutComment ((cs.getLast?.map isAsciiBlank).getD free) ds := by
  induction cs generalizing free with
  | nil => rfl
  | cons c cs ih =>
    obtain ⟨hsemicolon, hsign, hhead, hrest⟩ := isPlain_cons.mp h
    have hslash : ¬ (c = '/' ∧ (cs ++ ds).head? = some '/') := by
      cases cs with
      | nil =>
        rintro ⟨rfl, hd⟩
        exact hjoin rfl hd
      | cons d cs => exact hhead
    have hjoin' : cs.getLast? = some '/' → ds.head? ≠ some '/' := by
      cases cs with
      | nil => simp
      | cons d cs => exact fun hlast => hjoin (by simpa using hlast)
    have hgo : (c == ';' || (c == '/' && (cs ++ ds).head? == some '/') || (c == '@' && free)) =
        false := by
      simp only [Bool.or_eq_false_iff, Bool.and_eq_false_iff, beq_eq_false_iff_ne]
      exact ⟨⟨hsemicolon, Decidable.not_and_iff_or_not.mp hslash⟩, Or.inl hsign⟩
    rw [List.cons_append, cutComment, hgo, if_neg Bool.false_ne_true, ih hrest hjoin']
    cases cs with
    | nil => rfl
    | cons d cs =>
      rw [List.getLast?_cons_cons, List.getLast?_eq_some_getLast (List.cons_ne_nil d cs)]
      rfl

/-- Nothing but blanks is left of a tail. -/
theorem isGap_cutComment {tail : List Char} (h : IsTail tail) (free : Bool) :
    IsGap (cutComment free tail) := by
  have hcut : ∀ {gap : List Char}, IsGap gap → ∀ rest,
      cutComment free (gap ++ rest) =
        gap ++ cutComment ((gap.getLast?.map isAsciiBlank).getD free) rest :=
    fun hgap rest => cutComment_append (isPlain_of_gap hgap) rest
      (fun heq => absurd heq (getLast?_ne_slash_of_gap hgap)) free
  cases h with
  | gap hgap =>
    have hall := hcut hgap []
    rw [List.append_nil] at hall
    rwa [hall, cutComment, List.append_nil]
  | semicolon hgap rest =>
    rw [hcut hgap]
    simpa [cutComment] using hgap
  | slashes hgap rest =>
    rw [hcut hgap]
    simpa [cutComment] using hgap
  | @sign gap c hgap hc rest =>
    have hblanks : IsGap (gap ++ [c]) := by
      intro d hd
      rcases List.mem_append.mp hd with hd | hd
      · exact hgap d hd
      · exact List.mem_singleton.mp hd ▸ isBlank_of_isAsciiBlank hc
    rw [List.append_cons, hcut hblanks, List.getLast?_concat, Option.map_some, Option.getD_some,
      hc]
    simpa [cutComment] using hblanks

/-! ## What is left of a line -/

/-- A line says what it was written for. -/
theorem bare_of_written {payload raw : List Char} (hplain : IsPlain payload)
    (hsolid : IsSolid payload) (h : IsWritten payload raw) : bare raw = payload := by
  obtain ⟨lead, tail, hlead, htail, hjoin, rfl⟩ := h
  unfold bare
  have hlast : lead.getLast? = some '/' → (payload ++ tail).head? ≠ some '/' := fun heq =>
    absurd heq (getLast?_ne_slash_of_gap hlead)
  rw [cutComment_append (isPlain_of_gap hlead) _ hlast, cutComment_append hplain _ hjoin,
    trim_gap_append hlead, trim_append_gap (isGap_cutComment htail _), trim_of_solid hsolid]

theorem bare_of_idle {raw : List Char} (h : IsIdle raw) : bare raw = [] := by
  unfold bare
  rcases h with htail | ⟨rest, rfl⟩
  · exact trim_of_gap (isGap_cutComment htail true)
  · simp [cutComment]

/-- A tail belongs to a comment before it, or nothing but blanks is left of it. It must not make up
    slashes with the end of what stands before. -/
theorem cutComment_append_tail {tail : List Char} (h : IsTail tail)
    (hslash : tail.head? ≠ some '/') (free : Bool) (cs : List Char) :
    ∃ gap, IsGap gap ∧ cutComment free (cs ++ tail) = cutComment free cs ++ gap := by
  induction cs generalizing free with
  | nil => exact ⟨cutComment free tail, isGap_cutComment h free, rfl⟩
  | cons c cs ih =>
    have hhead : ((cs ++ tail).head? == some '/') = (cs.head? == some '/') := by
      cases cs with
      | nil => simp [hslash]
      | cons d cs => rfl
    rw [List.cons_append, cutComment, cutComment, hhead]
    split
    · exact ⟨[], isGap_nil, rfl⟩
    · obtain ⟨gap, hgap, hcut⟩ := ih (isAsciiBlank c)
      exact ⟨gap, hgap, by rw [hcut, List.cons_append]⟩

/-- A tail behind a line does not matter. -/
theorem bare_append_tail {tail : List Char} (h : IsTail tail) (hslash : tail.head? ≠ some '/')
    (raw : List Char) : bare (raw ++ tail) = bare raw := by
  obtain ⟨gap, hgap, hcut⟩ := cutComment_append_tail h hslash true raw
  unfold bare
  rw [hcut, trim_append_gap hgap]

theorem bare_append_gap {gap : List Char} (h : IsGap gap) (raw : List Char) :
    bare (raw ++ gap) = bare raw :=
  bare_append_tail (.gap h) (head?_ne_slash_of_gap h) raw

/-- Indentation does not matter. Other blanks than those of ASCII do: behind them an `@` starts no
    comment. -/
theorem bare_indent {pad : List Char} (h : ∀ c ∈ pad, isAsciiBlank c) (raw : List Char) :
    bare (pad ++ raw) = bare raw := by
  have hgap : IsGap pad := fun c hc => isBlank_of_isAsciiBlank (h c hc)
  have hfree : (pad.getLast?.map isAsciiBlank).getD true = true := by
    cases hlast : pad.getLast? with
    | none => rfl
    | some c => exact h c (List.mem_of_getLast? hlast)
  unfold bare
  rw [cutComment_append (isPlain_of_gap hgap) raw
    (fun heq => absurd heq (getLast?_ne_slash_of_gap hgap)), hfree, trim_gap_append hgap]

/-- What is left of the rest of a line is left of the line too, if no comment starts before it and
    the last blank before it is one of ASCII. -/
theorem bare_behind {lead head gap : List Char} {b : Char} (hlead : IsGap lead)
    (hhead : IsPlain head) (hgap : IsGap gap) (hb : isAsciiBlank b) (rest : List Char) :
    ∃ before after, IsGap before ∧ IsGap after ∧
      cutComment true rest = before ++ (bare rest ++ after) ∧
      bare (lead ++ (head ++ (gap ++ b :: rest))) =
        trim (head ++ (gap ++ b :: (before ++ bare rest))) := by
  obtain ⟨before, after, hbefore, hafter, hcut⟩ := exists_gaps_trim (cutComment true rest)
  have hblanks : IsGap (gap ++ [b]) :=
    isGap_append_cons hgap (isBlank_of_isAsciiBlank hb) isGap_nil
  have hplain : IsPlain (lead ++ (head ++ (gap ++ [b]))) := by
    have hbehind := hhead.append_gap hblanks (by simp) isPlain_nil
    rw [List.append_nil] at hbehind
    exact isPlain_gap_append hlead hbehind
  have hlast : (lead ++ (head ++ (gap ++ [b]))).getLast? = some b := by
    rw [← List.append_assoc, ← List.append_assoc, List.getLast?_concat]
  have hslash : (lead ++ (head ++ (gap ++ [b]))).getLast? = some '/' → rest.head? ≠ some '/' := by
    rw [hlast]
    intro heq
    rw [Option.some.inj heq] at hb
    exact absurd hb (by decide)
  have hline : lead ++ (head ++ (gap ++ b :: rest)) = lead ++ (head ++ (gap ++ [b])) ++ rest := by
    simp
  have hparts : lead ++ (head ++ (gap ++ [b])) ++ cutComment true rest =
      lead ++ (head ++ (gap ++ b :: (before ++ bare rest)) ++ after) := by
    rw [hcut]
    simp [bare]
  refine ⟨before, after, hbefore, hafter, hcut, ?_⟩
  rw [hline, bare, cutComment_append hplain rest hslash, hlast, Option.map_some,
    Option.getD_some, hb, hparts, trim_gap_append hlead, trim_append_gap hafter]

theorem bare_dropReturn (raw : List Char) : bare (dropReturn raw) = bare raw := by
  unfold dropReturn
  split
  · rename_i hlast
    obtain ⟨cs, rfl⟩ := List.getLast?_eq_some_iff.mp hlast
    rw [List.dropLast_concat, bare_append_gap (by decide)]
  · rfl

end FirmwareMatch.Line
