import KernelTraining.Abstract.Listing

/-!
# Printing from an offset on

Of a text that does not fit its buffer, a reader asks for what comes from an offset on.  All of
it is printed anew at every call.  What comes in front of the offset is thrown away, paragraph
by paragraph; the paragraph that the offset falls into stays as a whole, and what was asked for
begins somewhere in it (`printFrom_spec`).

Whether a paragraph is printed depends on how much is in the buffer, and not on how much has
been thrown away.  So it makes a difference where the offset is: after some paragraphs have been
thrown away the buffer is empty again, and there is as much room as in the beginning.

* `printFrom_spec` splits the paragraphs into those in front and those behind, and reduces what
  is printed to `printWhile` on the latter.  It is an induction on the paragraphs, in which
  the offset decreases with everything that is thrown away.
* Two offsets are simpler: one at the end of the text (`printFrom_end`), and one that is at the
  end of a paragraph (`printFrom_between`).
* A text that is in the buffer before the loop begins, as a heading is, is thrown away with the
  first paragraph, or stays with it.  So it can as well be put into it (`printFrom_head`).
-/

namespace KernelTraining.Abstract

variable {α : Type*}

/-- Prints paragraphs behind `text` while the check `go` is passed, and throws away what is in
front of `offset`: what is in the buffer at the end, and where what was asked for begins. -/
def printFrom (go : List α → Prop) [DecidablePred go] :
    List (Paragraph α) → List α → ℕ → ℕ → List α × ℕ
  | [], text, _, start => (text, start)
  | p :: ps, text, offset, start =>
      if go text then
        let text := text ++ p.text
        if offset = 0 then printFrom go ps text 0 start
        else if text.length ≤ offset then printFrom go ps [] (offset - text.length) start
        else printFrom go ps text 0 offset
      else (text, start)

variable {go : List α → Prop} [DecidablePred go] {p : Paragraph α} {ps : List (Paragraph α)}
  {text : List α} {offset start : ℕ}

/-- What is printed is the beginning of the whole. -/
theorem printWhile_prefix : printWhile go ps text <+: text ++ fullText ps := by
  induction ps generalizing text with
  | nil =>
      rw [fullText, List.flatMap_nil, List.append_nil]
      exact List.prefix_refl text
  | cons p ps ih =>
      unfold printWhile
      split_ifs
      · have hrest : printWhile go ps (text ++ p.text) <+: text ++ p.text ++ fullText ps := ih
        rwa [List.append_assoc] at hrest
      · exact List.prefix_append text _

/-- With nothing to throw away. -/
theorem printFrom_zero : printFrom go ps text 0 start = (printWhile go ps text, start) := by
  induction ps generalizing text with
  | nil => rfl
  | cons p ps ih =>
      simp only [printFrom, printWhile, if_true, ih]
      split_ifs <;> rfl

/-- A text that is there before the first paragraph could as well begin it. -/
theorem printFrom_head (hempty : go []) (htext : go text) :
    printFrom go (p :: ps) text offset start =
      printFrom go (⟨text ++ p.line, p.rest⟩ :: ps) [] offset start := by
  have hfirst : [] ++ (⟨text ++ p.line, p.rest⟩ : Paragraph α).text = text ++ p.text := by
    simp only [Paragraph.text, List.nil_append, List.append_assoc]
  simp only [printFrom, hfirst, if_pos hempty, if_pos htext]

theorem length_fullText_cons :
    (fullText (p :: ps)).length = p.text.length + (fullText ps).length := by
  rw [fullText, List.flatMap_cons, List.length_append]
  rfl

/-- From the end on there is nothing. -/
theorem printFrom_end (hempty : go []) (hps : ∀ p ∈ ps, p.text ≠ [])
    (hend : (fullText ps).length ≤ offset) : printFrom go ps [] offset 0 = ([], 0) := by
  induction ps generalizing offset with
  | nil => rfl
  | cons p ps ih =>
      rw [List.forall_mem_cons] at hps
      have hpos := List.length_pos_iff.mpr hps.1
      rw [length_fullText_cons] at hend
      rw [printFrom, if_pos hempty, List.nil_append, if_neg (by omega), if_pos (by omega)]
      exact ih hps.2 (by omega)

/-- At the end of some paragraphs it goes on with the next one. -/
theorem printFrom_between (hempty : go []) (before after : List (Paragraph α)) :
    printFrom go (before ++ after) [] (fullText before).length 0 = (printWhile go after [], 0) := by
  induction before with
  | nil => exact printFrom_zero
  | cons p before ih =>
      rw [length_fullText_cons, List.cons_append]
      simp only [printFrom, if_pos hempty, List.nil_append]
      split_ifs with hzero hbehind
      · -- nothing is in front of the offset, and there is nothing to throw away
        have hp : p.text = [] := List.length_eq_zero_iff.mp (by omega)
        have hbefore : (fullText before).length = 0 := by omega
        rw [hbefore] at ih
        rwa [hp]
      · rwa [Nat.add_sub_cancel_left]
      · omega

/-- What is in the buffer, if every paragraph that is printed fits. -/
theorem length_printFrom_le {bound : ℕ}
    (hfits : ∀ p ∈ ps, ∀ text, go text → (text ++ p.text).length ≤ bound)
    (htext : text.length ≤ bound) : (printFrom go ps text offset start).1.length ≤ bound := by
  induction ps generalizing text offset start with
  | nil => exact htext
  | cons p ps ih =>
      rw [List.forall_mem_cons] at hfits
      simp only [printFrom]
      split_ifs with hgo
      · exact ih hfits.2 (hfits.1 text hgo)
      · exact ih hfits.2 (Nat.zero_le bound)
      · exact ih hfits.2 (hfits.1 text hgo)
      · exact htext

/-- **From an offset on**: some paragraphs are thrown away, those behind them are printed, and
the offset is in the first of these. -/
theorem printFrom_spec (hempty : go []) (hps : ∀ p ∈ ps, p.text ≠ [])
    (hoffset : offset < (fullText ps).length) :
    ∃ before after, ps = before ++ after ∧ (fullText before).length ≤ offset ∧
      printFrom go ps [] offset 0 =
        (printWhile go after [], offset - (fullText before).length) ∧
      offset < (fullText before).length + (printWhile go after []).length := by
  induction ps generalizing offset with
  | nil => exact absurd hoffset (Nat.not_lt_zero offset)
  | cons p ps ih =>
      rw [List.forall_mem_cons] at hps
      have hpos := List.length_pos_iff.mpr hps.1
      rw [length_fullText_cons] at hoffset
      simp only [printFrom, if_pos hempty, List.nil_append]
      rcases Nat.lt_or_ge offset p.text.length with hinside | hbehind
      · -- it falls into this one
        have hprinted : printWhile go (p :: ps) [] = printWhile go ps p.text := by
          rw [printWhile, if_pos hempty, List.nil_append]
        have hlonger : p.text.length ≤ (printWhile go ps p.text).length :=
          printWhile_extends.length_le
        refine ⟨[], p :: ps, rfl, Nat.zero_le _, ?_, ?_⟩
        · rw [hprinted, if_neg (show ¬ p.text.length ≤ offset by omega)]
          split_ifs with hzero
          · rw [printFrom_zero, hzero]
            rfl
          · rw [printFrom_zero]
            rfl
        · rw [hprinted]
          have hnone : (fullText ([] : List (Paragraph α))).length = 0 := rfl
          omega
      · rw [if_neg (by omega), if_pos hbehind]
        obtain ⟨before, after, hsplit, hle, hprinted, hlt⟩ :=
          ih hps.2 (show offset - p.text.length < (fullText ps).length by omega)
        refine ⟨p :: before, after, ?_, ?_, ?_, ?_⟩
        · rw [hsplit, List.cons_append]
        · rw [length_fullText_cons]
          omega
        · rw [hprinted, length_fullText_cons, Nat.sub_sub]
        · rw [length_fullText_cons]
          omega

end KernelTraining.Abstract
