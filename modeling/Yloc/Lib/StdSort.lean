import Mathlib.Tactic
import Mathlib.Data.List.Sort

/-!
Sorting that leaves the order of equal elements open.

`StdSort α` is any function that sorts lists of `α` by a key and keeps their
elements: what is known of `std::sort`. A statement about every such function
holds for every order in which equal elements may be left. `StdSort.prefer p`
is the one that puts the elements with `p` first among those of equal key.
-/

/-- A way of sorting lists by a key. -/
structure StdSort (α : Type) where
  sort : (α → ℕ) → List α → List α
  /-- The elements stay. -/
  perm : ∀ key l, (sort key l).Perm l
  /-- The keys increase. -/
  sorted : ∀ key l, (sort key l).Pairwise fun a b => key a ≤ key b

namespace StdSort

variable {α : Type}

lemma mem_sort (S : StdSort α) {key : α → ℕ} {l : List α} {a : α} : a ∈ S.sort key l ↔ a ∈ l :=
  (S.perm key l).mem_iff

/-- The first element of a sorted list is one of least key. -/
theorem head_least (S : StdSort α) (key : α → ℕ) {l : List α} {a : α} {as : List α}
    (h : S.sort key l = a :: as) : a ∈ l ∧ ∀ b ∈ l, key a ≤ key b := by
  refine ⟨S.mem_sort.mp (by rw [h]; simp), fun b hb => ?_⟩
  have hsorted := S.sorted key l
  rw [h, List.pairwise_cons] at hsorted
  have hmem : b ∈ a :: as := by rw [← h]; exact S.mem_sort.mpr hb
  rcases List.mem_cons.mp hmem with rfl | hb'
  · exact le_rfl
  · exact hsorted.1 b hb'

/-- Among elements of equal key, those with `p` come first. -/
def prefer (p : α → Prop) [DecidablePred p] : StdSort α where
  sort key l := l.insertionSort fun a b =>
    2 * key a + (if p a then 0 else 1) ≤ 2 * key b + if p b then 0 else 1
  perm _ l := List.perm_insertionSort _ l
  sorted key l := by
    let key' : α → ℕ := fun a => 2 * key a + if p a then 0 else 1
    have htotal : Std.Total fun a b : α => key' a ≤ key' b := ⟨fun a b => le_total _ _⟩
    have htrans : IsTrans α fun a b => key' a ≤ key' b := ⟨fun a b c => le_trans⟩
    refine (List.pairwise_insertionSort (fun a b => key' a ≤ key' b) l).imp fun {a b} hab => ?_
    simp only [key'] at hab
    split at hab <;> split at hab <;> omega

/-- Sorting by insertion, one way that can be computed. -/
def insertion : StdSort α := prefer fun _ => True

/-- The result depends on the list and the keys of its elements only. -/
def Deterministic (S : StdSort α) : Prop :=
  ∀ key key' l, (∀ a ∈ l, key a = key' a) → S.sort key l = S.sort key' l

lemma prefer_deterministic (p : α → Prop) [DecidablePred p] : (prefer p).Deterministic := by
  intro key key' l hkeys
  have hsame := List.map_insertionSort (fun a b =>
      2 * key a + (if p a then 0 else 1) ≤ 2 * key b + if p b then 0 else 1)
    (fun a b => 2 * key' a + (if p a then 0 else 1) ≤ 2 * key' b + if p b then 0 else 1) id l
    fun a ha b hb => by rw [hkeys a ha, hkeys b hb]; rfl
  rwa [List.map_id, List.map_id] at hsame

end StdSort
