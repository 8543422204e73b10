import Mathlib.Data.List.Infix
import Mathlib.Tactic.Common
/-!
# Redaction — replacing words by a mask

`replaceAll` reads a text once, from the left, and puts the mask where the pattern is, so no replacement overlaps another.  What a
mask can and cannot hide is decided by marks: where the mask is all marks and the words have none, a word without marks that is in
the result was in the text, and is not the pattern (`infix_replaceAll`); so several words replaced one after the other are all
gone at the end (`not_infix_scrub`).
-/
namespace Atp
namespace Redaction

variable {α : Type} [DecidableEq α]

/-- The text past its next `k` elements, with the mask for each occurrence of the pattern. -/
def masked (pat mask : List α) : ℕ → List α → List α
  | _, [] => []
  | k + 1, _ :: l => masked pat mask k l
  | 0, c :: l => if pat.isPrefixOf (c :: l) then mask ++ masked pat mask (pat.length - 1) l else c :: masked pat mask 0 l

/-- `text.replace(pat, mask)`, of a pattern that is not empty. -/
def replaceAll (pat mask text : List α) : List α := masked pat mask 0 text

/-- Each word replaced, in turn; an empty one replaces nothing. -/
def scrub (mask text : List α) (words : List (List α)) : List α :=
  words.foldl (fun text word => if word.isEmpty then text else replaceAll word mask text) text

/-- No element of the word is a mark. -/
def Free (mark : α → Bool) (word : List α) : Prop := ∀ a ∈ word, mark a = false

variable {mark : α → Bool} {pat mask text w : List α}

/-- A word free of marks that starts the result starts the text, where no pattern does. -/
theorem prefix_masked (hmask : ∀ a ∈ mask, mark a = true) (hne : mask ≠ []) : ∀ (text : List α) {w : List α}, Free mark w →
    w <+: masked pat mask 0 text → w <+: text ∧ (w ≠ [] → ¬pat <+: text)
  | [], w, _, h => ⟨h, fun hwne => absurd (List.prefix_nil.1 h) hwne⟩
  | c :: l, w, hw, h => by
    unfold masked at h
    by_cases hpat : pat.isPrefixOf (c :: l) = true
    · rw [if_pos hpat] at h
      obtain ⟨m, mask', rfl⟩ := List.exists_cons_of_ne_nil hne
      cases w with
      | nil => exact ⟨List.nil_prefix, fun hnil => absurd rfl hnil⟩
      | cons a w =>
        obtain ⟨rfl, -⟩ := List.cons_prefix_cons.1 h
        have hmarked := hmask a List.mem_cons_self
        rw [hw a List.mem_cons_self] at hmarked
        cases hmarked
    · rw [if_neg hpat] at h
      have hnot : ¬pat <+: c :: l := fun hin => hpat (List.isPrefixOf_iff_prefix.2 hin)
      cases w with
      | nil => exact ⟨List.nil_prefix, fun _ => hnot⟩
      | cons a w =>
        obtain ⟨rfl, hrest⟩ := List.cons_prefix_cons.1 h
        obtain ⟨hpre, -⟩ := prefix_masked hmask hne l (fun b hb => hw b (List.mem_cons_of_mem _ hb)) hrest
        exact ⟨List.cons_prefix_cons.2 ⟨rfl, hpre⟩, fun _ => hnot⟩

omit [DecidableEq α] in
/-- A word free of marks is past a run of them, if it is after it at all. -/
theorem infix_marks (hw : Free mark w) (hne : w ≠ []) : ∀ {mask l : List α}, (∀ a ∈ mask, mark a = true) → w <:+: mask ++ l → w <:+: l
  | [], _, _, h => h
  | m :: mask, l, hmask, h => by
    rw [List.cons_append, List.infix_cons_iff] at h
    rcases h with hpre | hin
    · obtain ⟨a, w, rfl⟩ := List.exists_cons_of_ne_nil hne
      obtain ⟨rfl, -⟩ := List.cons_prefix_cons.1 hpre
      have hmarked := hmask a List.mem_cons_self
      rw [hw a List.mem_cons_self] at hmarked
      cases hmarked
    · exact infix_marks hw hne (fun b hb => hmask b (List.mem_cons_of_mem _ hb)) hin

theorem infix_masked (hmask : ∀ a ∈ mask, mark a = true) (hne : mask ≠ []) (hw : Free mark w) (hwne : w ≠ []) :
    ∀ (text : List α) {k : ℕ}, w <:+: masked pat mask k text → w <:+: text ∧ w ≠ pat
  | [], k, h => by
    cases k <;> exact absurd (List.eq_nil_of_infix_nil h) hwne
  | c :: l, k + 1, h => by
    obtain ⟨hin, hother⟩ := infix_masked hmask hne hw hwne l h
    exact ⟨hin.trans (List.suffix_cons c l).isInfix, hother⟩
  | c :: l, 0, h => by
    have hfirst := h
    unfold masked at h
    split_ifs at h with hpat
    · obtain ⟨hin, hother⟩ := infix_masked hmask hne hw hwne l (infix_marks hw hwne hmask h)
      exact ⟨hin.trans (List.suffix_cons c l).isInfix, hother⟩
    · rcases List.infix_cons_iff.1 h with hpre | hin
      · have hstart : w <+: masked pat mask 0 (c :: l) := by
          unfold masked
          rw [if_neg hpat]
          exact hpre
        obtain ⟨hpre', hnot⟩ := prefix_masked hmask hne (c :: l) hw hstart
        refine ⟨hpre'.isInfix, ?_⟩
        rintro rfl
        exact hnot hwne hpre'
      · obtain ⟨hin', hother⟩ := infix_masked hmask hne hw hwne l hin
        exact ⟨hin'.trans (List.suffix_cons c l).isInfix, hother⟩

/-- **What is left after a replacement was there before it**, and is not what was replaced. -/
theorem infix_replaceAll (hmask : ∀ a ∈ mask, mark a = true) (hne : mask ≠ []) (hw : Free mark w) (hwne : w ≠ [])
    (h : w <:+: replaceAll pat mask text) : w <:+: text ∧ w ≠ pat :=
  infix_masked hmask hne hw hwne text h

theorem infix_scrub (hmask : ∀ a ∈ mask, mark a = true) (hne : mask ≠ []) (hw : Free mark w) (hwne : w ≠ []) :
    ∀ {words : List (List α)} {text : List α}, w <:+: scrub mask text words → w <:+: text ∧ w ∉ words
  | [], _, h => ⟨h, List.not_mem_nil⟩
  | word :: words, text, h => by
    unfold scrub at h
    rw [List.foldl_cons] at h
    obtain ⟨hin, hnot⟩ := infix_scrub hmask hne hw hwne h
    split_ifs at hin with hempty
    · refine ⟨hin, fun hmem => ?_⟩
      rcases List.mem_cons.1 hmem with rfl | hmem
      · exact hwne (List.isEmpty_iff.1 hempty)
      · exact hnot hmem
    · obtain ⟨hin', hother⟩ := infix_replaceAll hmask hne hw hwne hin
      refine ⟨hin', fun hmem => ?_⟩
      rcases List.mem_cons.1 hmem with rfl | hmem
      · exact hother rfl
      · exact hnot hmem

/-- **Every word replaced is gone**, and none came in. -/
theorem not_infix_scrub (hmask : ∀ a ∈ mask, mark a = true) (hne : mask ≠ []) {words : List (List α)} {word : List α}
    (hword : word ∈ words) (hfree : Free mark word) (hwne : word ≠ []) : ¬word <:+: scrub mask text words :=
  fun h => (infix_scrub hmask hne hfree hwne h).2 hword

theorem replaceAll_absent : ∀ {text : List α}, ¬pat <:+: text → replaceAll pat mask text = text
  | [], _ => rfl
  | c :: l, h => by
    have hpre : ¬pat.isPrefixOf (c :: l) = true := fun hin => h (List.isPrefixOf_iff_prefix.1 hin).isInfix
    unfold replaceAll masked
    rw [if_neg hpre]
    exact congrArg (c :: ·) (replaceAll_absent fun hin => h (hin.trans (List.suffix_cons c l).isInfix))

/-- **A text with none of the words in it is left as it is.** -/
theorem scrub_absent : ∀ {words : List (List α)}, (∀ word ∈ words, word ≠ [] → ¬word <:+: text) → scrub mask text words = text
  | [], _ => rfl
  | word :: words, h => by
    have hrest : scrub mask text words = text := scrub_absent fun word' hword' => h word' (List.mem_cons_of_mem word hword')
    unfold scrub at hrest ⊢
    rw [List.foldl_cons]
    split_ifs with hempty
    · exact hrest
    · rw [replaceAll_absent (h word List.mem_cons_self fun hnil => hempty (List.isEmpty_iff.2 hnil))]
      exact hrest

end Redaction
end Atp
