import Yloc.Lib.Acyclic

/-!
Walks in a forest.

In a forest every point has one parent at most and no way down leads round
(`Forest`). A walk goes along the edges in both directions. `Meet` is the lowest
point above two points, with the number of steps down to each.

* `Below.unique`, `Forest.chain`: how far a point is above another, and that the points
  above one point are above one another.
* `Forest.exists_meet`: two points with a point above both meet.
* `Walk.shorten`: no walk is shorter than the way over some point above both ends, and
  one that is as short goes up first and down afterwards.
* `Forest.walk_spec`: what the shortest walks between two points are.
-/

variable {α : Type} {r : α → α → Prop}

/-- Every point has one parent at most, and no way down leads round. -/
structure Forest (r : α → α → Prop) : Prop where
  parent : ∀ a a' b, r a b → r a' b → a = a'
  acyclic : Acyclic r

/-! ### Points above one another -/

/-- The point is `k` steps below `w`. -/
inductive Below (r : α → α → Prop) (w : α) : ℕ → α → Prop where
  | refl : Below r w 0 w
  | step {k : ℕ} {u v : α} (h : Below r w k u) (hr : r u v) : Below r w (k + 1) v

namespace Below

variable {u v w : α} {i j : ℕ}

/-- A step above. -/
lemma head {a : α} (hr : r a w) (h : Below r w i u) : Below r a (i + 1) u := by
  induction h with
  | refl => exact .step .refl hr
  | step _ hr' ih => exact ih.step hr'

lemma trans (h : Below r w i u) (h' : Below r u j v) : Below r w (i + j) v := by
  induction h' with
  | refl => exact h
  | step _ hr ih => exact ih.step hr

lemma eq_of_zero (h : Below r w 0 u) : w = u := by
  cases h
  rfl

lemma reach (h : Below r w i u) : Relation.ReflTransGen r w u := by
  induction h with
  | refl => exact .refl
  | step _ hr ih => exact ih.tail hr

/-- The first of the steps. -/
lemma first (h : Below r w (i + 1) u) : ∃ a, r w a ∧ Below r a i u := by
  induction i generalizing u with
  | zero =>
      cases h with
      | step h hr =>
          obtain rfl := h.eq_of_zero
          exact ⟨u, hr, .refl⟩
  | succ i ih =>
      cases h with
      | step h hr =>
          obtain ⟨a, ha, h⟩ := ih h
          exact ⟨a, ha, h.step hr⟩

/-- Some steps lead strictly below. -/
lemma strict (h : Below r w (i + 1) u) : Relation.TransGen r w u := by
  cases h with
  | step h hr => exact Relation.TransGen.tail' h.reach hr

end Below

namespace Forest

variable {u v w w' : α} {i j i' j' : ℕ}

/-- The points above one point are above one another. -/
theorem chain (hr : Forest r) (h : Below r w i u) (h' : Below r w' i' u) (hle : i ≤ i') :
    Below r w' (i' - i) w := by
  induction h generalizing i' with
  | refl => exact h'
  | @step i a b _ hab ih =>
      cases h' with
      | refl => omega
      | @step i' a' _ h' hab' =>
          obtain rfl := hr.parent _ _ _ hab hab'
          rw [Nat.add_sub_add_right]
          exact ih h' (by omega)

/-- The number of steps is determined. -/
theorem below_unique (hr : Forest r) (h : Below r w i u) (h' : Below r w i' u) : i = i' := by
  have key : ∀ {a b : ℕ}, Below r w a u → Below r w b u → b ≤ a := by
    intro a b ha hb
    by_contra hlt
    have hloop := hr.chain ha hb (by omega)
    obtain ⟨k, hk⟩ : ∃ k, b - a = k + 1 := ⟨b - a - 1, by omega⟩
    rw [hk] at hloop
    exact hr.acyclic w hloop.strict
  exact le_antisymm (key h' h) (key h h')

end Forest

/-- The lowest point above `u` and `v`, which are `i` and `j` steps below it. -/
structure Meet (r : α → α → Prop) (u v w : α) (i j : ℕ) : Prop where
  left : Below r w i u
  right : Below r w j v
  lowest : ∀ w' i' j', Below r w' i' u → Below r w' j' v → ∃ k, Below r w' k w

namespace Forest

variable {u v w w' : α} {i j i' j' : ℕ}

/-- Two points with a point above both meet. -/
theorem exists_meet (hr : Forest r) (hu : Below r w i u) (hv : Below r w j v) :
    ∃ w' i' j', Meet r u v w' i' j' := by
  classical
  -- the point above both that is nearest to `u`
  have hex : ∃ i', ∃ w' j', Below r w' i' u ∧ Below r w' j' v := ⟨i, w, j, hu, hv⟩
  obtain ⟨w', j', hu', hv'⟩ := Nat.find_spec hex
  refine ⟨w', Nat.find hex, j', hu', hv', fun w'' i'' j'' hu'' hv'' => ?_⟩
  exact ⟨_, hr.chain hu' hu'' (Nat.find_min' hex ⟨w'', j'', hu'', hv''⟩)⟩

/-- Over the lowest point the way is shortest. -/
theorem meet_le (hr : Forest r) (h : Meet r u v w i j) (hu : Below r w' i' u)
    (hv : Below r w' j' v) : i ≤ i' ∧ j ≤ j' ∧ i' + j = i + j' := by
  obtain ⟨k, hk⟩ := h.lowest w' i' j' hu hv
  have hi := hr.below_unique (hk.trans h.left) hu
  have hj := hr.below_unique (hk.trans h.right) hv
  omega

end Forest

section

variable {x y : α}

/-- Two points above one point: the first is strictly below the second, or the other way
round with no steps allowed. -/
lemma Forest.above_or_below (hr : Forest r) (h : Below r w i u) (h' : Below r w' i' u) :
    (∃ k, Below r w' k w) ∨ ∃ k, Below r w (k + 1) w' := by
  by_cases hle : i ≤ i'
  · exact .inl ⟨_, hr.chain h h' hle⟩
  · refine .inr ⟨i - i' - 1, ?_⟩
    rw [show i - i' - 1 + 1 = i - i' by omega]
    exact hr.chain h' h (by omega)

/-- A point above points below `u` and `v` is above these, or one of the two is above the
other. -/
lemma Forest.above_both (hr : Forest r) (hx : Below r u i x) (hy : Below r v j y)
    (hx' : Below r w i' x) (hy' : Below r w j' y) :
    ((∃ k, Below r w k u) ∧ ∃ k, Below r w k v) ∨ (∃ k, Below r u k v) ∨ ∃ k, Below r v k u := by
  rcases hr.above_or_below hx hx' with ⟨k, hk⟩ | ⟨k, hk⟩
  · rcases hr.above_or_below hy hy' with ⟨l, hl⟩ | ⟨l, hl⟩
    · exact .inl ⟨⟨k, hk⟩, l, hl⟩
    · exact .inr (.inr ⟨_, hl.trans hk⟩)
  · -- `w` is below `u`, and so is everything below `w`
    rcases hr.above_or_below (hk.trans hy') hy with ⟨l, hl⟩ | ⟨l, hl⟩
    · exact .inr (.inr ⟨l, hl⟩)
    · exact .inr (.inl ⟨_, hl⟩)

/-- Where neither of two points is above the other, points below them meet in the same
point. -/
theorem Meet.below (hr : Forest r) (h : Meet r u v w i j) (hi : i ≠ 0) (hj : j ≠ 0)
    (hx : Below r u i' x) (hy : Below r v j' y) : Meet r x y w (i + i') (j + j') where
  left := h.left.trans hx
  right := h.right.trans hy
  lowest w' k l hk hl := by
    rcases hr.above_both hx hy hk hl with ⟨⟨a, ha⟩, b, hb⟩ | ⟨a, ha⟩ | ⟨a, ha⟩
    · exact h.lowest w' a b ha hb
    · -- `u` is above both, and the lowest such point is above `u`
      obtain ⟨b, hb⟩ := h.lowest u 0 a .refl ha
      have hloop := hr.below_unique .refl (hb.trans h.left)
      omega
    · obtain ⟨b, hb⟩ := h.lowest v a 0 ha .refl
      have hloop := hr.below_unique .refl (hb.trans h.right)
      omega

/-- Two children meet in their parent. -/
lemma Forest.meet_children (hr : Forest r) (hx : r w x) (hy : r w y) (hne : x ≠ y) :
    Meet r x y w 1 1 where
  left := .step .refl hx
  right := .step .refl hy
  lowest w' k l hk hl := by
    have hwx : Below r w 1 x := .step .refl hx
    have hwy : Below r w 1 y := .step .refl hy
    cases k with
    | succ k => exact ⟨_, hr.chain hwx hk (by omega)⟩
    | zero =>
        obtain rfl := hk.eq_of_zero
        cases l with
        | zero => exact absurd hl.eq_of_zero hne
        | succ l => exact ⟨_, hr.chain hwy hl (by omega)⟩

end

/-! ### Walks -/

/-- The direction of a step. -/
inductive Dir where
  | up
  | down
  deriving DecidableEq, Repr

/-- The steps `ds` lead from `u` to `v`. -/
inductive Walk (r : α → α → Prop) (u : α) : List Dir → α → Prop where
  | nil : Walk r u [] u
  | up {ds : List Dir} {v w : α} (h : Walk r u ds v) (hr : r w v) : Walk r u (ds ++ [.up]) w
  | down {ds : List Dir} {v w : α} (h : Walk r u ds v) (hr : r v w) : Walk r u (ds ++ [.down]) w

/-- Up for `i` steps and down for `j`. -/
def overTop (i j : ℕ) : List Dir := List.replicate i .up ++ List.replicate j .down

@[simp] lemma length_overTop (i j : ℕ) : (overTop i j).length = i + j := by
  simp [overTop]

@[simp] lemma overTop_down (i j : ℕ) : overTop i j ++ [.down] = overTop i (j + 1) := by
  rw [overTop, overTop, List.replicate_succ', List.append_assoc]

@[simp] lemma overTop_up (i : ℕ) : overTop i 0 ++ [.up] = overTop (i + 1) 0 := by
  simp [overTop, List.replicate_succ']

namespace Walk

variable {u v w : α} {i j : ℕ} {ds : List Dir}

/-- The way up to a point. -/
lemma of_below (h : Below r w i u) : Walk r u (overTop i 0) w := by
  induction i generalizing w with
  | zero =>
      rw [h.eq_of_zero]
      exact .nil
  | succ i ih =>
      obtain ⟨b, hb, h⟩ := h.first
      rw [← overTop_up]
      exact (ih h).up hb

/-- The way over a point above both ends. -/
theorem of_common (hu : Below r w i u) (hv : Below r w j v) : Walk r u (overTop i j) v := by
  induction hv with
  | refl => exact of_below hu
  | step _ hr ih =>
      rw [← overTop_down]
      exact ih.down hr

/-- **A walk is no shorter than the way over a point above both ends**, and one that is
as short is that way: a step down and back up again can be left out. -/
theorem shorten (hr : Forest r) (h : Walk r u ds v) :
    ∃ w i j, Below r w i u ∧ Below r w j v ∧ i + j ≤ ds.length ∧
      (ds.length ≤ i + j → ds = overTop i j) := by
  induction h with
  | nil => exact ⟨u, 0, 0, .refl, .refl, le_rfl, fun _ => rfl⟩
  | @down ds v v' _ hstep ih =>
      obtain ⟨w, i, j, hu, hv, hle, heq⟩ := ih
      refine ⟨w, i, j + 1, hu, hv.step hstep, by simp; omega, fun hlen => ?_⟩
      rw [heq (by simp at hlen; omega), overTop_down]
  | @up ds v v' _ hstep ih =>
      obtain ⟨w, i, j, hu, hv, hle, heq⟩ := ih
      cases hv with
      | refl =>
          refine ⟨v', i + 1, 0, hu.head hstep, .refl, by simp; omega, fun hlen => ?_⟩
          rw [heq (by simp at hlen; omega), overTop_up]
      | @step j a _ hv ha =>
          -- the walk has come down to `v` from where it goes up to
          obtain rfl := hr.parent _ _ _ ha hstep
          refine ⟨w, i, j, hu, hv, by simp; omega, fun hlen => ?_⟩
          simp only [List.length_append, List.length_cons, List.length_nil] at hlen
          omega

end Walk

namespace Forest

variable {u v w : α} {i j : ℕ} {ds : List Dir}

/-- **The shortest walks in a forest**: where two points meet, a walk between them is at
least as long as the way over the point in which they meet, and the only one of that
length is this way. -/
theorem walk_spec (hr : Forest r) (hmeet : Meet r u v w i j) :
    Walk r u (overTop i j) v ∧
      ∀ ds, Walk r u ds v → i + j ≤ ds.length ∧ (ds.length = i + j → ds = overTop i j) := by
  refine ⟨.of_common hmeet.left hmeet.right, fun ds hwalk => ?_⟩
  obtain ⟨w', i', j', hu, hv, hle, heq⟩ := hwalk.shorten hr
  obtain ⟨hi, hj, hsum⟩ := hr.meet_le hmeet hu hv
  refine ⟨by omega, fun hlen => ?_⟩
  obtain rfl : i' = i := by omega
  obtain rfl : j' = j := by omega
  exact heq (by omega)

/-- Walks join the points that meet. -/
theorem exists_walk_iff (hr : Forest r) :
    (∃ ds, Walk r u ds v) ↔ ∃ w i j, Meet r u v w i j := by
  constructor
  · rintro ⟨ds, hwalk⟩
    obtain ⟨w, i, j, hu, hv, -, -⟩ := hwalk.shorten hr
    exact hr.exists_meet hu hv
  · rintro ⟨w, i, j, hmeet⟩
    exact ⟨_, (hr.walk_spec hmeet).1⟩

end Forest
