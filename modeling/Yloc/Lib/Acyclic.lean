import Mathlib.Tactic
import Mathlib.Logic.Relation

/-!
Acyclic relations.

A relation is acyclic when no point is strictly reachable from itself
(`Acyclic`). The file collects the ways acyclicity is established and the way
recursions use it.

* `acyclic_of_lt`: a relation that raises a height is acyclic.
* `acyclic_of_sublist`: so is one that goes forward in a list.
* `Acyclic.sup`: two acyclic relations may be laid over one another when no
  step of the second ends where a step of the first begins, since a path then
  uses the first relation before the second (`reflTransGen_sup`).
* `Acyclic.add_leaf`: a step to a point without steps may be added.
* `Acyclic.of_lift`: acyclicity is reflected by a relational embedding.
* `exists_rank`: on finitely many points an acyclic relation descends along a
  rank below the number of points, the fuel that a recursion down the relation
  needs.
-/

open Relation

variable {α β : Type}

/-- No point is strictly reachable from itself. -/
def Acyclic (r : α → α → Prop) : Prop := ∀ x, ¬ TransGen r x x

namespace Acyclic

variable {r s : α → α → Prop}

lemma mono (hs : Acyclic s) (h : ∀ a b, r a b → s a b) : Acyclic r :=
  fun x hx => hs x (TransGen.mono h x x hx)

end Acyclic

/-- A relation that raises a height is acyclic. -/
theorem acyclic_of_lt {r : α → α → Prop} (height : α → ℕ)
    (h : ∀ a b, r a b → height a < height b) : Acyclic r := by
  have key : ∀ a b, TransGen r a b → height a < height b := by
    intro a b hab
    induction hab with
    | single hab => exact h _ _ hab
    | tail _ hbc ih => exact ih.trans (h _ _ hbc)
  exact fun x hx => lt_irrefl _ (key x x hx)

/-- A relation that goes forward in a list without repetitions is acyclic. -/
theorem acyclic_of_sublist [DecidableEq α] {r : α → α → Prop} {l : List α} (hl : l.Nodup)
    (h : ∀ a b, r a b → [a, b].Sublist l) : Acyclic r := by
  refine acyclic_of_lt l.idxOf fun a b hab => ?_
  have hforward : l.Pairwise fun x y => l.idxOf x < l.idxOf y := by
    rw [List.pairwise_iff_getElem]
    intro i j hi hj hij
    rwa [hl.idxOf_getElem i hi, hl.idxOf_getElem j hj]
  simpa using hforward.sublist (h a b hab)

/-- When no step of `s` ends where a step of `r` begins, a path through both
relations follows `r` first and `s` afterwards. -/
lemma reflTransGen_sup {r s : α → α → Prop} (h : ∀ a b c, s a b → ¬ r b c) {a b : α}
    (hab : ReflTransGen (fun x y => r x y ∨ s x y) a b) :
    ∃ m, ReflTransGen r a m ∧ ReflTransGen s m b := by
  induction hab with
  | refl => exact ⟨a, .refl, .refl⟩
  | @tail b c _ hbc ih =>
      obtain ⟨m, ham, hmb⟩ := ih
      rcases hbc with hbc | hbc
      · -- a step of `r` cannot follow a step of `s`, so the second part is empty
        rcases ReflTransGen.cases_tail hmb with rfl | ⟨d, _, hdb⟩
        · exact ⟨c, ham.tail hbc, .refl⟩
        · exact absurd hbc (h d b c hdb)
      · exact ⟨m, ham, hmb.tail hbc⟩

/-- Two acyclic relations stay acyclic together when no step of the second ends
where a step of the first begins. -/
theorem Acyclic.sup {r s : α → α → Prop} (hr : Acyclic r) (hs : Acyclic s)
    (h : ∀ a b c, s a b → ¬ r b c) : Acyclic fun x y => r x y ∨ s x y := by
  intro x hx
  obtain ⟨m, hxm, hmx⟩ := reflTransGen_sup h hx.to_reflTransGen
  rcases ReflTransGen.cases_tail hmx with hmx' | ⟨d, hmd, hdx⟩
  · -- the path stays in `r`
    subst hmx'
    obtain ⟨y, hxy, hyx⟩ := TransGen.head'_iff.mp hx
    rcases hxy with hxy | hxy
    · obtain ⟨m', hym, hmx'⟩ := reflTransGen_sup h hyx
      rcases ReflTransGen.cases_tail hmx' with rfl | ⟨d, _, hdx⟩
      · exact hr x (TransGen.head' hxy hym)
      · exact absurd hxy (h d x y hdx)
    · obtain ⟨m', hym, hmx'⟩ := reflTransGen_sup h hyx
      rcases ReflTransGen.cases_head hym with rfl | ⟨d, hyd, _⟩
      · exact hs x (TransGen.head' hxy hmx')
      · exact absurd hyd (h x y d hxy)
  · -- the path ends in `s`, so it never leaves `s`
    rcases ReflTransGen.cases_head hxm with rfl | ⟨c, hxc, _⟩
    · exact hs x (TransGen.tail' hmd hdx)
    · exact absurd hxc (h d x c hdx)

/-- A step to a point from which no step leads makes no cycle. -/
theorem Acyclic.add_leaf {r : α → α → Prop} (hr : Acyclic r) {a b : α} (hab : a ≠ b)
    (hb : ∀ c, ¬ r b c) : Acyclic fun x y => r x y ∨ x = a ∧ y = b := by
  classical
  refine hr.sup (acyclic_of_lt (fun x => if x = b then 1 else 0) ?_) ?_
  · rintro x y ⟨rfl, rfl⟩
    simp [hab]
  · rintro x y z ⟨-, rfl⟩
    exact hb z

/-- Acyclicity is reflected along a relational lifting: `q a b` reads "`b` is
the image of `a`", every point met by a step has one image, and images are
shared by no two points. -/
theorem Acyclic.of_lift {r : α → α → Prop} {s : β → β → Prop} (q : α → β → Prop)
    (hs : Acyclic s) (hstep : ∀ a b, r a b → ∃ x y, q a x ∧ q b y ∧ s x y)
    (hfun : ∀ a x y, q a x → q a y → x = y) : Acyclic r := by
  have key : ∀ a b, TransGen r a b → ∃ x y, q a x ∧ q b y ∧ TransGen s x y := by
    intro a b hab
    induction hab with
    | single hab =>
        obtain ⟨x, y, hx, hy, hxy⟩ := hstep _ _ hab
        exact ⟨x, y, hx, hy, .single hxy⟩
    | tail _ hbc ih =>
        obtain ⟨x, y, hx, hy, hxy⟩ := ih
        obtain ⟨y', z, hy', hz, hyz⟩ := hstep _ _ hbc
        obtain rfl := hfun _ _ _ hy hy'
        exact ⟨x, z, hx, hz, hxy.tail hyz⟩
  intro a ha
  obtain ⟨x, y, hx, hy, hxy⟩ := key a a ha
  obtain rfl := hfun _ _ _ hx hy
  exact hs x hxy

/-! ### Rank -/

/-- On the points below `N` an acyclic relation has a rank that every step
lowers, with all ranks below `N`: the number of points strictly reachable. -/
theorem exists_rank {r : ℕ → ℕ → Prop} (hr : Acyclic r) {N : ℕ}
    (hN : ∀ a b, r a b → b < N) :
    ∃ rank : ℕ → ℕ, (∀ a b, r a b → rank b < rank a) ∧ ∀ a < N, rank a < N := by
  classical
  -- the points strictly below `a`
  let below : ℕ → Finset ℕ := fun a => (Finset.range N).filter fun b => TransGen r a b
  refine ⟨fun a => (below a).card, fun a b hab => ?_, fun a ha => ?_⟩
  · refine Finset.card_lt_card ⟨fun c hc => ?_, fun hsub => ?_⟩
    · simp only [below, Finset.mem_filter] at hc ⊢
      exact ⟨hc.1, TransGen.head hab hc.2⟩
    · have hb : b ∈ below a := by
        simp only [below, Finset.mem_filter, Finset.mem_range]
        exact ⟨hN a b hab, TransGen.single hab⟩
      have hbb := hsub hb
      simp only [below, Finset.mem_filter] at hbb
      exact hr b hbb.2
  · have hlt : (below a).card < (Finset.range N).card := by
      refine Finset.card_lt_card ⟨Finset.filter_subset _ _, fun hsub => ?_⟩
      have haa := hsub (Finset.mem_range.mpr ha)
      simp only [below, Finset.mem_filter] at haa
      exact hr a haa.2
    simpa using hlt
