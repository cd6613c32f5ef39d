import FirmwareMatch.Proofs.Listing.Progress

/-
  The same text read for more or fewer sections.

  Two readers go over the lines side by side, one for all sections and one for some of them
  (`kept`). Where the first one is in a section that the second one passes over, only the first one
  changes; where the section is kept, both do the same. They meet again at every section start,
  since it closes what is being filled and drops what waits (`Reader.Restricts`).

  Which lines start a section depends on the sections that are looked for: a name alone on its line
  is a start if it is one of them or a well-known one. So the sections that are left out have to be
  well-known.

  Proved:
  * `read_restrict`: what a line is for the second reader.
  * `restricts_step`, `restricts_run`: one line, and all lines, for both readers.
  * `blocks_parse_filter`: the blocks of some sections among those of all.
-/

namespace FirmwareMatch

open Std Text

/-! ## Lines -/

namespace Line

/-- A line for a reader that passes over all sections but `kept`. -/
def restrict (kept : List String) : Line → Line
  | .marker code => .marker (code.filter (· ∈ kept))
  | l => l

variable {kept sections : List String}

theorem restrict_of_isMarker_false {l : Line} (h : l.isMarker = false) : l.restrict kept = l := by
  cases l <;> simp_all [isMarker, restrict]

/-- Whether a section is left out or not, its start is found. -/
theorem sectionMarker?_restrict (hkept : kept ⊆ sections)
    (hothers : ∀ name ∈ sections, name ∉ kept → name ∈ directives) (line : List Char) :
    sectionMarker? kept line = sectionMarker? sections line := by
  have hknown : ∀ name, (directives.contains name || kept.contains name) =
      (directives.contains name || sections.contains name) := by
    intro name
    rw [Bool.eq_iff_iff]
    simp only [Bool.or_eq_true, List.contains_iff_mem]
    constructor
    · exact Or.imp_right fun hname => hkept hname
    · rintro (hname | hname)
      · exact Or.inl hname
      · by_cases hmem : name ∈ kept
        · exact Or.inr hmem
        · exact Or.inl (hothers name hname hmem)
  unfold sectionMarker?
  simp only [hknown]

theorem read_restrict (hkept : kept ⊆ sections)
    (hothers : ∀ name ∈ sections, name ∉ kept → name ∈ directives) (raw : List Char) :
    read kept raw = (read sections raw).restrict kept := by
  unfold read ofBare
  rw [sectionMarker?_restrict hkept hothers]
  split
  · rfl
  · cases sectionMarker? sections (bare raw) with
    | some name =>
      by_cases hname : String.ofList name ∈ kept
      · simp [restrict, Option.filter_some, hname, hkept hname]
      · by_cases hall : String.ofList name ∈ sections <;> simp [restrict, Option.filter_some, hname, hall]
    | none =>
      cases label? (bare raw) <;> rfl

end Line

namespace Reader

/-! ## Two readers -/

/-- A reader `s` of the sections `kept` beside a reader `r` of more sections. -/
structure Restricts (kept : List String) (r s : Reader) : Prop where
  current : s.current = r.current.filter (· ∈ kept)
  labels : s.current.isSome → s.labels = r.labels
  draft : s.draft = r.draft.filter (·.sectionName ∈ kept)
  counts : ∀ name ∈ kept, s.counts.getD name 0 = r.counts.getD name 0
  blocks : s.blocks.toList = r.blocks.toList.filter (·.sectionName ∈ kept)

variable {kept : List String} {r s : Reader} {name : String} {ss : List (String × Statement)}

theorem restricts_start : Restricts kept start start where
  current := rfl
  labels := fun _ => rfl
  draft := rfl
  counts := fun _ _ => rfl
  blocks := rfl

theorem Restricts.close (h : Restricts kept r s) : Restricts kept r.close s.close := by
  cases hdraft : r.draft with
  | none =>
    have hs : s.draft = none := by rw [h.draft, hdraft]; rfl
    rwa [close_of_draft_none hdraft, close_of_draft_none hs]
  | some d =>
    rw [close_of_draft_some hdraft]
    by_cases hd : d.sectionName ∈ kept
    · have hs : s.draft = some d := by rw [h.draft, hdraft]; simp [hd]
      rw [close_of_draft_some hs]
      refine ⟨h.current, h.labels, rfl, ?_, ?_⟩
      · intro name hname
        simp only [ExtTreeMap.getD_insert, h.counts name hname, h.counts _ hd]
      · simp [h.blocks, h.counts _ hd, Draft.block, hd]
    · have hs : s.draft = none := by rw [h.draft, hdraft]; simp [hd]
      rw [close_of_draft_none hs]
      refine ⟨h.current, h.labels, hs, ?_, ?_⟩
      · intro name hname
        have hne : d.sectionName ≠ name := fun heq => hd (heq ▸ hname)
        simp only [ExtTreeMap.getD_insert, LawfulEqCmp.compare_eq_iff_eq, if_neg hne,
          h.counts name hname]
      · simp [h.blocks, Draft.block, hd]

theorem Restricts.enter (h : Restricts kept r s) (code : Option String) :
    Restricts kept (r.enter code) (s.enter (code.filter (· ∈ kept))) :=
  ⟨rfl, fun _ => rfl, h.close.draft, h.close.counts, h.close.blocks⟩

theorem Restricts.current_of_mem (h : Restricts kept r s) (hr : r.current = some name)
    (hname : name ∈ kept) : s.current = some name := by
  rw [h.current, hr]
  simp [hname]

theorem Restricts.current_of_not_mem (h : Restricts kept r s) (hr : r.current = some name)
    (hname : name ∉ kept) : s.current = none := by
  rw [h.current, hr]
  simp [hname]

/-! ## A section that is kept -/

theorem Restricts.addLabel (h : Restricts kept r s) (hs : s.current.isSome) (label : String) :
    Restricts kept (r.addLabel label) (s.addLabel label) := by
  have hlabels := h.close.labels (by rwa [close_current])
  exact ⟨h.close.current, fun _ => congrArg (label :: ·) hlabels, h.close.draft, h.close.counts,
    h.close.blocks⟩

/-- The block that takes the next instruction is one of the section. -/
theorem Follows.sectionName_nextDraft (h : r.Follows (some name) ss) :
    (r.nextDraft name).sectionName = name := by
  unfold nextDraft
  cases hdraft : r.draft with
  | none => rfl
  | some d => exact h.sectionName_eq hdraft

theorem Restricts.addStatement (h : Restricts kept r s) (hr : r.Follows (some name) ss)
    (hname : name ∈ kept) (st : Statement) :
    Restricts kept (r.addStatement name st) (s.addStatement name st) := by
  have hcurrent := h.current_of_mem hr.current hname
  have hsection := hr.sectionName_nextDraft
  have hnext : s.nextDraft name = r.nextDraft name := by
    unfold nextDraft at hsection ⊢
    rw [h.labels (by simp [hcurrent]), h.draft]
    cases hdraft : r.draft with
    | none => rfl
    | some d =>
      have hd : d.sectionName = name := by simpa [hdraft] using hsection
      simp [Option.filter_some, hd, hname]
  refine ⟨h.current, fun _ => rfl, ?_, h.counts, h.blocks⟩
  simp [Reader.addStatement, Option.filter_some, hnext, hsection, hname]

theorem Restricts.addContent (h : Restricts kept r s) (hr : r.Follows (some name) ss)
    (hname : name ∈ kept) (c : Content) :
    Restricts kept (r.addContent name c) (s.addContent name c) := by
  cases c with
  | instruction st => exact h.addStatement hr hname st
  | unknown => exact ⟨h.current, h.labels, h.draft, h.counts, h.blocks⟩

theorem Restricts.addCodeLine (h : Restricts kept r s) (hr : r.Follows (some name) ss)
    (hname : name ∈ kept) (l : Line) :
    Restricts kept (r.addCodeLine name l) (s.addCodeLine name l) := by
  have hs : s.current.isSome := by simp [h.current_of_mem hr.current hname]
  cases l with
  | blank => exact h
  | marker code => exact h
  | content c => exact h.addContent hr hname c
  | label label after =>
    cases after with
    | none => exact h.addLabel hs label
    | some c => exact (h.addLabel hs label).addContent (follows_addLabel hr label) hname c

/-! ## A section that is passed over -/

/-- In a section that is not kept there is no block for the second reader to fill. -/
theorem Restricts.draft_eq_none (h : Restricts kept r s) (hr : r.Follows (some name) ss)
    (hname : name ∉ kept) : s.draft = none := by
  rw [h.draft]
  cases hdraft : r.draft with
  | none => rfl
  | some d =>
    obtain rfl := hr.sectionName_eq hdraft
    simp [hname]

theorem Restricts.passLabel (h : Restricts kept r s) (hr : r.Follows (some name) ss)
    (hname : name ∉ kept) (label : String) : Restricts kept (r.addLabel label) s := by
  have hclose := h.close
  rw [close_of_draft_none (h.draft_eq_none hr hname)] at hclose
  refine ⟨hclose.current, ?_, hclose.draft, hclose.counts, hclose.blocks⟩
  simp [h.current_of_not_mem hr.current hname]

theorem Restricts.passContent (h : Restricts kept r s) (hr : r.Follows (some name) ss)
    (hname : name ∉ kept) (c : Content) : Restricts kept (r.addContent name c) s := by
  cases c with
  | unknown => exact ⟨h.current, h.labels, h.draft, h.counts, h.blocks⟩
  | instruction st =>
    refine ⟨h.current, ?_, ?_, h.counts, h.blocks⟩
    · simp [h.current_of_not_mem hr.current hname]
    · rw [h.draft_eq_none hr hname]
      simp [Reader.addContent, Reader.addStatement, Option.filter_some, hr.sectionName_nextDraft,
        hname]

theorem Restricts.passCodeLine (h : Restricts kept r s) (hr : r.Follows (some name) ss)
    (hname : name ∉ kept) (l : Line) : Restricts kept (r.addCodeLine name l) s := by
  cases l with
  | blank => exact h
  | marker code => exact h
  | content c => exact h.passContent hr hname c
  | label label after =>
    have hlabel := h.passLabel hr hname label
    cases after with
    | none => exact hlabel
    | some c => exact hlabel.passContent (follows_addLabel hr label) hname c

/-! ## Lines -/

/-- A line keeps the readers side by side. -/
theorem restricts_step {ls : List Line} (h : Restricts kept r s) (hr : r.FollowsLines ls)
    (l : Line) : Restricts kept (r.step l) (s.step (l.restrict kept)) := by
  rcases step_cases r l with ⟨code, rfl, hstep⟩ | ⟨hl, hnone, hstep⟩ | ⟨name, hl, hsome, hstep⟩
  · rw [hstep]
    exact h.enter code
  · have hs : s.current = none := by rw [h.current, hnone]; rfl
    rwa [hstep, Line.restrict_of_isMarker_false hl, step_of_current_none hs (Line.ne_marker hl)]
  · have hfollows : r.Follows (some name) (Line.codeStatements ls) := by
      rw [← hsome, hr.current]
      exact hr
    rw [hstep, Line.restrict_of_isMarker_false hl]
    -- both take a line of a section that is kept, and only the first one takes another line
    by_cases hname : name ∈ kept
    · rw [step_of_current_some (h.current_of_mem hsome hname) (Line.ne_marker hl)]
      exact h.addCodeLine hfollows hname l
    · rw [step_of_current_none (h.current_of_not_mem hsome hname) (Line.ne_marker hl)]
      exact h.passCodeLine hfollows hname l

theorem restricts_run (ls : List Line) :
    Restricts kept (start.run ls) (start.run (ls.map (Line.restrict kept))) := by
  induction ls using List.reverseRecOn with
  | nil => exact restricts_start
  | append_singleton ls l ih =>
    rw [List.map_append, run_append, run_append]
    exact restricts_step ih (followsLines_run ls) l

end Reader

/-! ## Texts -/

/-- Looking for further well-known sections does not disturb the others: the blocks of the sections
    `kept` are the same, with their numbers, names and instructions, and in the same order. -/
theorem Listing.blocks_parse_filter {kept sections : List String} (hkept : kept ⊆ sections)
    (hothers : ∀ name ∈ sections, name ∉ kept → name ∈ Line.directives) (text : String) :
    (Listing.parse kept text).blocks =
      (Listing.parse sections text).blocks.filter (·.sectionName ∈ kept) := by
  have hlines : Line.ofText kept text =
      (Line.ofText sections text).map (Line.restrict kept) := by
    unfold Line.ofText
    rw [List.map_map]
    exact List.map_congr_left fun raw _ => Line.read_restrict hkept hothers raw
  have hrun : Reader.Restricts kept _ _ := Reader.restricts_run (Line.ofText sections text)
  rw [← hlines] at hrun
  exact hrun.close.blocks

/-- A section between two stretches of another one, with a label that waits when it starts. -/
theorem Listing.blocks_parse_filter_between :
    let text := ".text\nnop\nlast:\n.init\nfirst: nop\n.text\nend: nop\n"
    [".text"] ⊆ [".text", ".init"] ∧
    (∀ name ∈ [".text", ".init"], name ∉ [".text"] → name ∈ Line.directives) ∧
    (Listing.parse [".text", ".init"] text).blocks.length = 3 ∧
    (Listing.parse [".text"] text).blocks.map (fun b => (b.index, b.labels)) =
      [(0, []), (1, ["end"])] := by
  intro text
  have hkept : [".text"] ⊆ [".text", ".init"] := by decide
  have hothers : ∀ name ∈ [".text", ".init"], name ∉ [".text"] → name ∈ Line.directives := by
    decide
  refine ⟨hkept, hothers, by decide +kernel, ?_⟩
  rw [Listing.blocks_parse_filter hkept hothers text]
  decide +kernel

end FirmwareMatch
