import Mathlib.Tactic

/-!
The pairs of a list.

`List.laterPairs` pairs every element with the later ones, as two nested loops do of which
the inner one starts after the outer. Every two positions are met once:
`List.mem_laterPairs` says which pairs there are, `List.laterPairs_nodup` that none is
repeated, and `List.mem_laterPairs_zipIdx`, `List.length_filter_laterPairs_zipIdx` tell and
count the pairs of a numbered list by their numbers.
-/

namespace List

variable {α : Type}

/-- The pairs of an element and a later one. -/
def laterPairs : List α → List (α × α)
  | [] => []
  | a :: l => l.map (Prod.mk a) ++ laterPairs l

/-- The pairs are those of different positions. -/
theorem mem_laterPairs {l : List α} {a b : α} :
    (a, b) ∈ l.laterPairs ↔ ∃ i j : ℕ, i < j ∧ l[i]? = some a ∧ l[j]? = some b := by
  induction l with
  | nil => simp [laterPairs]
  | cons c l ih =>
      rw [laterPairs, mem_append, ih, mem_map]
      constructor
      · rintro (⟨b', hb', heq⟩ | ⟨i, j, hij, ha, hb⟩)
        · obtain ⟨rfl, rfl⟩ := Prod.mk.inj heq
          obtain ⟨j, hj⟩ := mem_iff_getElem?.mp hb'
          exact ⟨0, j + 1, Nat.succ_pos j, rfl, hj⟩
        · exact ⟨i + 1, j + 1, Nat.succ_lt_succ hij, ha, hb⟩
      · rintro ⟨i, j, hij, ha, hb⟩
        obtain ⟨j, rfl⟩ := Nat.exists_eq_succ_of_ne_zero (Nat.ne_zero_of_lt hij)
        cases i with
        | zero =>
            obtain rfl := Option.some.inj ha
            exact .inl ⟨b, mem_iff_getElem?.mpr ⟨j, hb⟩, rfl⟩
        | succ i => exact .inr ⟨i, j, Nat.lt_of_succ_lt_succ hij, ha, hb⟩

/-- Every two different elements are paired once. -/
theorem laterPairs_nodup {l : List α} (h : l.Nodup) : l.laterPairs.Nodup := by
  induction l with
  | nil => exact nodup_nil
  | cons c l ih =>
      obtain ⟨hc, hl⟩ := nodup_cons.mp h
      rw [laterPairs]
      refine (hl.map fun b b' heq => (Prod.mk.inj heq).2).append (ih hl) ?_
      rintro ⟨a, b⟩ hmap hlater
      obtain ⟨b', -, heq⟩ := mem_map.mp hmap
      obtain ⟨i, j, -, ha, -⟩ := mem_laterPairs.mp hlater
      obtain ⟨rfl, -⟩ := Prod.mk.inj heq
      exact hc (mem_iff_getElem?.mpr ⟨i, ha⟩)

/-- The pairs of a numbered list. -/
lemma mem_laterPairs_zipIdx {l : List α} {p : (α × ℕ) × (α × ℕ)} :
    p ∈ l.zipIdx.laterPairs ↔ p.1.2 < p.2.2 ∧ l[p.1.2]? = some p.1.1 ∧ l[p.2.2]? = some p.2.1 := by
  obtain ⟨⟨a, i⟩, b, j⟩ := p
  rw [mem_laterPairs]
  constructor
  · rintro ⟨i', j', hij, ha, hb⟩
    rw [getElem?_zipIdx, Nat.zero_add] at ha hb
    obtain ⟨a', ha', heq⟩ := Option.map_eq_some_iff.mp ha
    obtain ⟨b', hb', heq'⟩ := Option.map_eq_some_iff.mp hb
    cases heq
    cases heq'
    exact ⟨hij, ha', hb'⟩
  · rintro ⟨hij, ha, hb⟩
    refine ⟨i, j, hij, ?_, ?_⟩
    · rw [getElem?_zipIdx, ha, Option.map_some, Nat.zero_add]
    · rw [getElem?_zipIdx, hb, Option.map_some, Nat.zero_add]

lemma zipIdx_nodup (l : List α) : l.zipIdx.Nodup := by
  refine Nodup.of_map Prod.snd ?_
  rw [zipIdx_map_snd]
  exact nodup_range'

/-- The pairs of a numbered list are as many as there are pairs of numbers. -/
theorem length_filter_laterPairs_zipIdx (l : List α) (q : ℕ → ℕ → Bool) :
    (l.zipIdx.laterPairs.filter fun p => q p.1.2 p.2.2).length =
      ((Finset.range l.length ×ˢ Finset.range l.length).filter fun p =>
        p.1 < p.2 ∧ q p.1 p.2 = true).card := by
  have hnodup : (l.zipIdx.laterPairs.filter fun p => q p.1.2 p.2.2).Nodup :=
    (laterPairs_nodup (zipIdx_nodup l)).filter _
  have hinj : ∀ p ∈ l.zipIdx.laterPairs.filter fun p => q p.1.2 p.2.2,
      ∀ p' ∈ l.zipIdx.laterPairs.filter fun p => q p.1.2 p.2.2,
        (p.1.2, p.2.2) = (p'.1.2, p'.2.2) → p = p' := by
    rintro ⟨⟨a, i⟩, b, j⟩ hp ⟨⟨a', i'⟩, b', j'⟩ hp' heq
    obtain ⟨rfl, rfl⟩ := Prod.mk.inj heq
    obtain ⟨-, ha, hb⟩ := mem_laterPairs_zipIdx.mp (mem_of_mem_filter hp)
    obtain ⟨-, ha', hb'⟩ := mem_laterPairs_zipIdx.mp (mem_of_mem_filter hp')
    obtain rfl := Option.some.inj (ha.symm.trans ha')
    obtain rfl := Option.some.inj (hb.symm.trans hb')
    rfl
  rw [← length_map (fun p => (p.1.2, p.2.2)), ← toFinset_card_of_nodup (hnodup.map_on hinj)]
  congr 1
  ext ⟨i, j⟩
  rw [mem_toFinset, mem_map, Finset.mem_filter, Finset.mem_product, Finset.mem_range,
    Finset.mem_range]
  constructor
  · rintro ⟨⟨⟨a, i⟩, b, j⟩, hp, heq⟩
    cases heq
    obtain ⟨hmem, hq⟩ := mem_filter.mp hp
    obtain ⟨hij, ha, hb⟩ := mem_laterPairs_zipIdx.mp hmem
    exact ⟨⟨(getElem?_eq_some_iff.mp ha).1, (getElem?_eq_some_iff.mp hb).1⟩, hij, hq⟩
  · rintro ⟨⟨hi, hj⟩, hij, hq⟩
    refine ⟨((l[i], i), (l[j], j)), mem_filter.mpr ⟨?_, hq⟩, rfl⟩
    exact mem_laterPairs_zipIdx.mpr ⟨hij, getElem?_eq_getElem hi, getElem?_eq_getElem hj⟩

end List
