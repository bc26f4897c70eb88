import Mathlib.Tactic

/-!
Text in lines.

`List.inLines` writes every line behind a separator, which may be any element that no line
contains. A text is cut back into its lines from the end, since what stands before them may
contain separators: `List.append_inLines_inj` cuts at the last line that reads `head`.
-/

namespace List

variable {α : Type} {sep : α}

/-- The lines, each behind a separator. -/
def inLines (sep : α) (ls : List (List α)) : List α := ls.flatMap (cons sep)

/-- The last line stands behind the last separator. -/
lemma append_inLines_concat (a : List α) (ls : List (List α)) (l : List α) :
    a ++ inLines sep (ls ++ [l]) = (a ++ inLines sep ls) ++ sep :: l := by
  simp [inLines]

/-- A text is cut at its last separator. -/
lemma append_sep_inj {a a' l l' : List α} (hl : sep ∉ l) (hl' : sep ∉ l') :
    a ++ sep :: l = a' ++ sep :: l' ↔ a = a' ∧ l = l' := by
  refine ⟨fun h => ?_, fun h => by rw [h.1, h.2]⟩
  rcases append_eq_append_iff.mp h with ⟨c, rfl, hc⟩ | ⟨c, rfl, hc⟩
  · cases c with
    | nil => exact ⟨(append_nil a).symm, (cons.inj hc).2⟩
    | cons d c => exact absurd ((cons.inj hc).2 ▸ by simp) hl
  · cases c with
    | nil => exact ⟨append_nil a', (cons.inj hc).2.symm⟩
    | cons d c => exact absurd ((cons.inj hc).2 ▸ by simp) hl'

/-- A text is cut at its first separator. -/
lemma sep_append_inj {a a' l l' : List α} (ha : sep ∉ a) (ha' : sep ∉ a') :
    a ++ sep :: l = a' ++ sep :: l' ↔ a = a' ∧ l = l' := by
  have hreverse : ∀ b m : List α, (b ++ sep :: m).reverse = m.reverse ++ sep :: b.reverse := by
    simp
  rw [← reverse_inj, hreverse, hreverse,
    append_sep_inj (mem_reverse.not.mpr ha) (mem_reverse.not.mpr ha'), reverse_inj, reverse_inj,
    and_comm]

/-- **A text is cut into the lines after the last one that reads `head`.** -/
theorem append_inLines_inj {a a' head : List α} {ls ls' : List (List α)} (hhead : sep ∉ head)
    (hls : ∀ l ∈ ls, sep ∉ l ∧ l ≠ head) (hls' : ∀ l ∈ ls', sep ∉ l ∧ l ≠ head) :
    a ++ inLines sep (head :: ls) = a' ++ inLines sep (head :: ls') ↔ a = a' ∧ ls = ls' := by
  refine ⟨fun h => ?_, fun h => by rw [h.1, h.2]⟩
  have hnil : [head] = [] ++ [head] := rfl
  -- the last lines are taken off, until one of them is `head`
  induction ls using reverseRecOn generalizing ls' with
  | nil =>
      rcases eq_nil_or_concat' ls' with rfl | ⟨ls', l', rfl⟩
      · exact ⟨append_cancel_right h, rfl⟩
      · obtain ⟨hsep, hne⟩ := hls' l' (by simp)
        rw [hnil, ← cons_append, append_inLines_concat, append_inLines_concat,
          append_sep_inj hhead hsep] at h
        exact absurd h.2.symm hne
  | append_singleton ls l ih =>
      obtain ⟨hsep, hne⟩ := hls l (by simp)
      rcases eq_nil_or_concat' ls' with rfl | ⟨ls', l', rfl⟩
      · rw [hnil, ← cons_append, append_inLines_concat, append_inLines_concat,
          append_sep_inj hsep hhead] at h
        exact absurd h.2 hne
      · rw [← cons_append, ← cons_append, append_inLines_concat, append_inLines_concat,
          append_sep_inj hsep (hls' l' (by simp)).1] at h
        obtain ⟨ha, hinit⟩ := ih (fun m hm => hls m (mem_append_left _ hm))
          (fun m hm => hls' m (mem_append_left _ hm)) h.1
        exact ⟨ha, by rw [hinit, h.2]⟩

end List
