import Mathlib.Data.List.Basic
import Mathlib.Data.Nat.Notation

/-!
# Printing until the text is long enough

A text is made of paragraphs, and another paragraph is printed only if the text so far
passes a check.  The check comes before the first line of a paragraph, so it bounds the
text if all lines are short, except for the lines that follow in the same paragraph
(`length_printWhile_lt_iff`).

A program with nested loops that all stop at the same check prints like this, whatever the
loops are: once the check has failed nothing more is printed (`printWhile_of_not`), so the text
of an inner loop can be printed and the rest put behind it (`printWhile_append`).

The main result is an equivalence, and its right hand side speaks of the paragraphs alone, not
of what has been printed.  For each paragraph it compares what comes before it in the full text
with the size; that is what has been printed by then, if it has come to the paragraph at all.
The induction takes off one paragraph at the front, and `forall_split_cons` does so with the
right hand side.  What has been printed once stays (`printWhile_extends`), so a text that runs
past the end does not come back.
-/

namespace KernelTraining.Abstract

variable {α : Type*}

/-- A line, and those that are printed with it. -/
structure Paragraph (α : Type*) where
  line : List α
  rest : List (List α)

/-- The text of a paragraph. -/
def Paragraph.text (p : Paragraph α) : List α := p.line ++ p.rest.flatten

/-- The text of all paragraphs. -/
def fullText (ps : List (Paragraph α)) : List α := ps.flatMap Paragraph.text

/-- Prints paragraphs behind `text` while the check `go` is passed. -/
def printWhile (go : List α → Prop) [DecidablePred go] : List (Paragraph α) → List α → List α
  | [], text => text
  | p :: ps, text => if go text then printWhile go ps (text ++ p.text) else text

variable {go : List α → Prop} [DecidablePred go] {p : Paragraph α} {ps : List (Paragraph α)}
  {text : List α}

theorem printWhile_of_not (h : ¬ go text) : printWhile go ps text = text := by
  cases ps with
  | nil => rfl
  | cons p ps => rw [printWhile, if_neg h]

/-- What has been printed stays. -/
theorem printWhile_extends : text <+: printWhile go ps text := by
  induction ps generalizing text with
  | nil => exact List.prefix_refl text
  | cons p ps ih =>
      unfold printWhile
      split_ifs
      · exact (List.prefix_append text p.text).trans ih
      · exact List.prefix_refl text

/-- After some paragraphs the others are printed under the same check. -/
theorem printWhile_append (ps qs : List (Paragraph α)) (text : List α) :
    printWhile go (ps ++ qs) text = printWhile go qs (printWhile go ps text) := by
  induction ps generalizing text with
  | nil => rfl
  | cons p ps ih =>
      rw [List.cons_append, printWhile, printWhile]
      split_ifs with h
      · exact ih _
      · exact (printWhile_of_not h).symm

/-- Everything is printed if the check is passed in front of every paragraph. -/
theorem printWhile_of_forall
    (h : ∀ before p after, ps = before ++ p :: after → go (text ++ fullText before)) :
    printWhile go ps text = text ++ fullText ps := by
  induction ps generalizing text with
  | nil => exact (List.append_nil text).symm
  | cons p ps ih =>
      have hfirst := h [] p ps rfl
      rw [fullText, List.flatMap_nil, List.append_nil] at hfirst
      rw [printWhile, if_pos hfirst, ih, List.append_assoc]
      · rfl
      · intro before q after hps
        have hlater := h (p :: before) q after (by rw [hps, List.cons_append])
        rwa [fullText, List.flatMap_cons, ← List.append_assoc] at hlater

/-- What holds of every paragraph and those before it holds of the first one, and of every
later one and those before it. -/
theorem forall_split_cons {P : List (Paragraph α) → Paragraph α → Prop} :
    (∀ before q after, p :: ps = before ++ q :: after → P before q) ↔
      P [] p ∧ ∀ before q after, ps = before ++ q :: after → P (p :: before) q := by
  constructor
  · intro hall
    refine ⟨hall [] p ps rfl, ?_⟩
    intro before q after hps
    exact hall (p :: before) q after (by rw [hps, List.cons_append])
  · rintro ⟨hfirst, hlater⟩ before q after hps
    cases before with
    | nil =>
        obtain ⟨rfl, -⟩ := List.cons.inj hps
        exact hfirst
    | cons p' before =>
        obtain ⟨rfl, htail⟩ := List.cons.inj hps
        exact hlater before q after htail

/-- **When a text stays below `size`**, for a check that leaves room for a line of less
than `margin`: no paragraph that passes it may run past the end with its further lines. -/
theorem length_printWhile_lt_iff {size margin : ℕ}
    (hgo : ∀ text : List α, text.length < size → (go text ↔ text.length + margin ≤ size))
    (hshort : ∀ p ∈ ps, p.line.length < margin) (htext : text.length < size) :
    (printWhile go ps text).length < size ↔
      ∀ before p after, ps = before ++ p :: after → p.rest ≠ [] →
        (text ++ fullText before).length + margin ≤ size →
          (text ++ fullText before ++ p.text).length < size := by
  induction ps generalizing text with
  | nil =>
      refine iff_of_true htext ?_
      intro before p after hsplit
      simp at hsplit
  | cons p ps ih =>
      rw [List.forall_mem_cons] at hshort
      have hshift (before : List (Paragraph α)) :
          text ++ fullText (p :: before) = text ++ p.text ++ fullText before := by
        rw [fullText, List.flatMap_cons, ← List.append_assoc]
        rfl
      have hstart : text ++ fullText ([] : List (Paragraph α)) = text := List.append_nil text
      rw [forall_split_cons]
      simp only [hshift, hstart]
      rw [printWhile]
      split_ifs with h
      · have hroom := (hgo text htext).mp h
        by_cases hfits : (text ++ p.text).length < size
        · rw [ih hshort.2 hfits]
          exact (and_iff_right fun _ _ => hfits).symm
        · refine iff_of_false ?_ ?_
          · have hprinted : (text ++ p.text).length ≤ (printWhile go ps (text ++ p.text)).length :=
              printWhile_extends.length_le
            omega
          · -- a single line would have fitted
            rintro ⟨hfirst, -⟩
            refine hfits (hfirst ?_ hroom)
            intro hrest
            apply hfits
            have := hshort.1
            simp only [Paragraph.text, hrest, List.flatten_nil, List.append_nil, List.length_append]
            omega
      · refine iff_of_true htext ⟨fun _ hroom => absurd ((hgo text htext).mpr hroom) h, ?_⟩
        intro before q after _ _ hroom
        refine absurd ((hgo text htext).mpr ?_) h
        simp only [List.length_append] at hroom
        omega

end KernelTraining.Abstract
