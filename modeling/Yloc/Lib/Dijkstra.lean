import Yloc.Lib.Bfs
import Mathlib.Data.UInt

/-!
Dijkstra's algorithm over an arithmetic type with a maximum.

Distances are values of a type `T` whose addition is exact only up to its maximum, which
stands for infinity; which of several nearest vertices is taken from the queue is left open
(`ExtractMin`).

* `ArithmeticType`, `closedPlus`: the type of the distances and its addition.
* `dijkstra`: the algorithm.
* `SumsFit`: no sum that it forms goes beyond the maximum.
* `TreePath`: the path back along the predecessors, which the algorithm keeps for every
  vertex discovered. Its inner vertices are settled, so that a vertex is never on its own
  way back, whatever edges of weight zero there are.
* `DijkstraInv`, `DijkstraMid`: the invariant between the rounds and within one.
* `dijkstra_distance`, `dijkstra_tree`: distances are least sums, and predecessors lead
  back along edges that make them up.
-/

/-! ### Arithmetic types -/

/-- An arithmetic type as a part of the integers: its order is theirs, and its addition
too as long as the sum is not beyond its maximum. -/
class ArithmeticType (T : Type) [LT T] [Add T] [Zero T] where
  /-- `std::numeric_limits<T>::max()` -/
  maximum : T
  value : T → ℤ
  lt_iff : ∀ a b : T, a < b ↔ value a < value b
  value_zero : value 0 = 0
  value_le_max : ∀ a, value a ≤ value maximum
  value_add : ∀ a b, 0 ≤ value a → 0 ≤ value b → value a + value b ≤ value maximum →
    value (a + b) = value a + value b

instance : ArithmeticType UInt64 where
  maximum := 0xFFFFFFFFFFFFFFFF
  value a := a.toNat
  lt_iff a b := by rw [UInt64.lt_iff_toNat_lt, Int.ofNat_lt]
  value_zero := rfl
  value_le_max a := by
    have := a.toNat_lt
    rw [show ((0xFFFFFFFFFFFFFFFF : UInt64).toNat) = 2 ^ 64 - 1 by rfl]
    omega
  value_add a b _ _ h := by
    rw [show ((0xFFFFFFFFFFFFFFFF : UInt64).toNat) = 2 ^ 64 - 1 by rfl] at h
    rw [UInt64.toNat_add, Nat.mod_eq_of_lt (by omega)]
    push_cast
    rfl

section Sum

variable {T : Type} [LT T] [Add T] [Zero T] [ArithmeticType T]

open ArithmeticType

/-- `boost::closed_plus`: what is infinite stays so. -/
def closedPlus [DecidableEq T] (a b : T) : T :=
  if a = maximum then maximum else if b = maximum then maximum else a + b

/-- The addition is exact, or the second summand is infinite. -/
lemma closedPlus_cases [DecidableEq T] {a b : T} (ha : 0 ≤ value a)
    (ha' : value a < value (maximum : T)) (hb : 0 ≤ value b)
    (hfits : b = maximum ∨ value a + value b ≤ value (maximum : T)) :
    (b = maximum ∧ closedPlus a b = maximum) ∨ value (closedPlus a b) = value a + value b := by
  have hne : a ≠ maximum := by
    rintro rfl
    exact lt_irrefl _ ha'
  rw [closedPlus, if_neg hne]
  split
  · next hmax => exact .inl ⟨hmax, rfl⟩
  · next hmax => exact .inr (value_add a b ha hb (hfits.resolve_left hmax))

end Sum

/-! ### The algorithm -/

/-- `EXTRACT-MIN`: a way of choosing one of the elements of least distance of a queue that
is not empty. -/
structure ExtractMin (α T : Type) [LT T] where
  min : (α → T) → α → List α → α
  mem : ∀ (distance : α → T) v vs, min distance v vs ∈ v :: vs
  least : ∀ (distance : α → T) v vs, ∀ w ∈ v :: vs, ¬ distance w < distance (min distance v vs)

/-- The queue, which vertices are no longer white, the distances and the predecessors. -/
structure DijkstraState (α T : Type) where
  queue : List α
  discovered : α → Bool
  distance : α → T
  predecessor : α → α

section Algorithm

variable {α E T : Type} [DecidableEq α]

/-- The vertex `v` gets the distance `d` and the predecessor `u`, and is inserted into the
queue if it is white. (The queue looks at the distances when it is asked for the least, so
there is nothing more to `DECREASE-KEY`.) -/
def DijkstraState.decrease (st : DijkstraState α T) (v : α) (d : T) (u : α) :
    DijkstraState α T where
  queue := if st.discovered v then st.queue else st.queue ++ [v]
  discovered := Function.update st.discovered v true
  distance := Function.update st.distance v d
  predecessor := Function.update st.predecessor v u

variable [LT T] [DecidableLT T] [Add T] [Zero T] [DecidableEq T] [ArithmeticType T]

/-- The edge `e` out of `u` is examined. -/
def DijkstraState.examine (target : E → α) (weight : E → T) (u : α) (st : DijkstraState α T)
    (e : E) : DijkstraState α T :=
  let d := closedPlus (st.distance u) (weight e)
  if d < st.distance (target e) then st.decrease (target e) d u else st

/-- The loop takes a vertex of least distance from the queue and examines the edges out
of it. -/
def dijkstraLoop (Q : ExtractMin α T) (out : α → List E) (target : E → α) (weight : E → T) :
    ℕ → DijkstraState α T → DijkstraState α T
  | 0, st => st
  | fuel + 1, st =>
      match st.queue with
      | [] => st
      | v :: vs =>
          let u := Q.min st.distance v vs
          dijkstraLoop Q out target weight fuel
            ((out u).foldl (DijkstraState.examine target weight u)
              { st with queue := (v :: vs).erase u })

/-- The state at the beginning: all distances but that of the start vertex are infinite,
and every vertex is its own predecessor. -/
def dijkstraInit (s : α) : DijkstraState α T where
  queue := [s]
  discovered := Function.update (fun _ => false) s true
  distance := Function.update (fun _ => ArithmeticType.maximum) s 0
  predecessor := id

/-- The algorithm from `s`, with `fuel` rounds at most. -/
def dijkstra (Q : ExtractMin α T) (out : α → List E) (target : E → α) (weight : E → T)
    (fuel : ℕ) (s : α) : DijkstraState α T :=
  dijkstraLoop Q out target weight fuel (dijkstraInit s)

/-- The weights of edges out of vertices are all that counts. -/
lemma dijkstra_congr {out : α → List E} {target : E → α} {weight weight' : E → T}
    (hweight : ∀ u, ∀ e ∈ out u, weight e = weight' e) (Q : ExtractMin α T) (fuel : ℕ) (s : α) :
    dijkstra Q out target weight fuel s = dijkstra Q out target weight' fuel s := by
  rw [dijkstra, dijkstra]
  generalize (dijkstraInit s : DijkstraState α T) = st
  induction fuel generalizing st with
  | zero => rfl
  | succ fuel ih =>
      rw [dijkstraLoop, dijkstraLoop]
      cases st.queue with
      | nil => rfl
      | cons v vs =>
          dsimp only
          rw [ih]
          congr 1
          refine List.foldl_ext _ _ _ fun st' e he => ?_
          rw [DijkstraState.examine, DijkstraState.examine, hweight _ e he]

end Algorithm

/-- The first of the elements of least distance. -/
def ExtractMin.first {α T : Type} [LT T] [DecidableLT T] [Add T] [Zero T] [ArithmeticType T] :
    ExtractMin α T where
  min distance v vs := vs.foldl (fun u w => if distance w < distance u then w else u) v
  mem distance v vs := by
    induction vs generalizing v with
    | nil => exact List.mem_singleton.mpr rfl
    | cons w vs ih =>
        rw [List.foldl_cons]
        split
        · exact List.mem_cons_of_mem _ (ih w)
        · rcases List.mem_cons.mp (ih v) with h | h
          · rw [h]
            exact List.mem_cons_self
          · exact List.mem_cons_of_mem _ (List.mem_cons_of_mem _ h)
  least distance v vs := by
    simp only [ArithmeticType.lt_iff, not_lt]
    induction vs generalizing v with
    | nil => simp
    | cons w vs ih =>
        rw [List.foldl_cons]
        intro x hx
        split
        · next hlt =>
            rcases List.mem_cons.mp hx with rfl | hx
            · exact (ih w w List.mem_cons_self).trans hlt.le
            · exact ih w x hx
        · next hnot =>
            have hv := ih v v List.mem_cons_self
            rcases List.mem_cons.mp hx with rfl | hx
            · exact hv
            · rcases List.mem_cons.mp hx with rfl | hx
              · exact hv.trans (not_lt.mp hnot)
              · exact ih v x (List.mem_cons_of_mem _ hx)

/-! ### Sums along paths -/

section Sums

open ArithmeticType

variable {α E T : Type} [LT T] [Add T] [Zero T] [ArithmeticType T]

/-- No vertex comes twice on the path `p` from `s`. -/
def IsSimple (target : E → α) (s : α) (p : List E) : Prop := (s :: p.map target).Nodup

/-- The sum of the weights along a path. -/
def pathSum (weight : E → T) (p : List E) : ℤ := (p.map fun e => value (weight e)).sum

/-- Weights are not negative, sums along simple paths stay below the maximum, and one more
edge at the end of a simple path does not take the sum beyond it, unless its weight is the
maximum. -/
structure SumsFit (out : α → List E) (target : E → α) (weight : E → T) (s : α) : Prop where
  nonneg : ∀ u, ∀ e ∈ out u, 0 ≤ value (weight e)
  simple : ∀ p v, IsPath out target s p v → IsSimple target s p →
    pathSum weight p < value (maximum : T)
  edge : ∀ p v, IsPath out target s p v → IsSimple target s p → ∀ e ∈ out v,
    weight e = maximum ∨ pathSum weight p + value (weight e) ≤ value (maximum : T)

@[simp] lemma pathSum_nil (weight : E → T) : pathSum weight [] = 0 := rfl

@[simp] lemma pathSum_concat (weight : E → T) (p : List E) (e : E) :
    pathSum weight (p ++ [e]) = pathSum weight p + value (weight e) := by
  simp [pathSum]

lemma isSimple_concat {target : E → α} {s : α} {p : List E} {e : E} :
    IsSimple target s (p ++ [e]) ↔ IsSimple target s p ∧ target e ∉ s :: p.map target := by
  rw [IsSimple, IsSimple, List.map_append, ← List.cons_append, List.map_singleton,
    List.nodup_append]
  simp only [List.nodup_singleton, List.mem_singleton, true_and]
  refine and_congr_right fun _ => ⟨fun h hmem => h _ hmem _ rfl rfl, fun h a ha b hb => ?_⟩
  rintro rfl
  exact h (hb ▸ ha)

variable {out : α → List E} {target : E → α} {weight : E → T} {s v : α} {p : List E}

lemma SumsFit.pathSum_nonneg (h : SumsFit out target weight s) (hp : IsPath out target s p v) :
    0 ≤ pathSum weight p := by
  induction hp with
  | nil => exact le_rfl
  | @snoc p u e _ he ih =>
      rw [pathSum_concat]
      exact add_nonneg ih (h.nonneg u e he)

/-- Weights that are small for the number of vertices fit: a simple path has fewer edges than
there are vertices. -/
theorem SumsFit.of_le [DecidableEq α] {vs : Finset α} (hvs : ∀ u, ∀ e ∈ out u, target e ∈ vs)
    (hs : s ∈ vs) {bound : ℤ} (hbound : 0 ≤ bound)
    (hnonneg : ∀ u, ∀ e ∈ out u, 0 ≤ value (weight e))
    (hle : ∀ u, ∀ e ∈ out u, value (weight e) ≤ bound)
    (hmax : vs.card * bound < value (maximum : T)) : SumsFit out target weight s := by
  have hmem : ∀ {p v}, IsPath out target s p v → ∀ w ∈ s :: p.map target, w ∈ vs := by
    intro p v hp
    induction hp with
    | nil => simpa using hs
    | @snoc p u e _ he ih =>
        intro w hw
        rw [List.map_append, ← List.cons_append] at hw
        rcases List.mem_append.mp hw with hw | hw
        · exact ih w hw
        · rw [List.mem_singleton.mp hw]
          exact hvs u e he
  have hsum : ∀ {p v}, IsPath out target s p v → pathSum weight p ≤ p.length * bound := by
    intro p v hp
    induction hp with
    | nil => simp
    | @snoc p u e _ he ih =>
        have hlast := hle u e he
        rw [pathSum_concat, List.length_append, List.length_singleton]
        push_cast
        linarith
  have hlength : ∀ {p v}, IsPath out target s p v → IsSimple target s p →
      pathSum weight p + bound ≤ vs.card * bound := by
    intro p v hp hsimple
    have hcard : p.length + 1 ≤ vs.card := by
      have hsub : (s :: p.map target).toFinset ⊆ vs := fun w hw =>
        hmem hp w (List.mem_toFinset.mp hw)
      have := Finset.card_le_card hsub
      rwa [List.toFinset_card_of_nodup hsimple, List.length_cons, List.length_map] at this
    calc pathSum weight p + bound
        ≤ p.length * bound + bound := add_le_add_left (hsum hp) bound
      _ = ((p.length + 1 : ℕ) : ℤ) * bound := by push_cast; ring
      _ ≤ vs.card * bound := mul_le_mul_of_nonneg_right (by exact_mod_cast hcard) hbound
  refine ⟨hnonneg, fun p v hp hsimple => ?_, fun p v hp hsimple e he => .inr ?_⟩
  · have := hlength hp hsimple
    linarith
  · have := hlength hp hsimple
    have := hle v e he
    linarith

end Sums

/-! ### The way back -/

section Search

open ArithmeticType

variable {α E T : Type} [DecidableEq α]

namespace DijkstraState

/-- The vertex is discovered and no longer in the queue. -/
def Settled (st : DijkstraState α T) (v : α) : Prop := st.discovered v = true ∧ v ∉ st.queue

variable {st : DijkstraState α T} {v w : α}

lemma decrease_queue_subset (d : T) (u : α) (hw : w ∈ (st.decrease v d u).queue) :
    w = v ∨ w ∈ st.queue := by
  rw [decrease] at hw
  dsimp only at hw
  split at hw
  · exact .inr hw
  · rcases List.mem_append.mp hw with hw | hw
    · exact .inr hw
    · exact .inl (List.mem_singleton.mp hw)

/-- Vertices that are not settled stay so when their distance decreases, and others are not
concerned. -/
lemma settled_decrease (hv : ¬ st.Settled v) (d : T) (u : α) :
    (st.decrease v d u).Settled w ↔ st.Settled w := by
  by_cases hwv : w = v
  · subst hwv
    refine iff_of_false (fun h => h.2 ?_) hv
    rw [decrease]
    dsimp only
    split
    · next hdisc => exact not_not.mp fun hmem => hv ⟨hdisc, hmem⟩
    · exact List.mem_append_right _ (List.mem_singleton.mpr rfl)
  · have hqueue : w ∈ (st.decrease v d u).queue ↔ w ∈ st.queue := by
      refine ⟨fun hw => (decrease_queue_subset d u hw).resolve_left hwv, fun hw => ?_⟩
      rw [decrease]
      dsimp only
      split
      · exact hw
      · exact List.mem_append_left _ hw
    rw [Settled, Settled, hqueue]
    simp [decrease, hwv]

@[simp] lemma decrease_distance_self (st : DijkstraState α T) (v : α) (d : T) (u : α) :
    (st.decrease v d u).distance v = d := by
  simp [decrease]

@[simp] lemma decrease_predecessor_self (st : DijkstraState α T) (v : α) (d : T) (u : α) :
    (st.decrease v d u).predecessor v = u := by
  simp [decrease]

@[simp] lemma decrease_discovered_self (st : DijkstraState α T) (v : α) (d : T) (u : α) :
    (st.decrease v d u).discovered v = true := by
  simp [decrease]

lemma decrease_of_ne (st : DijkstraState α T) (hne : w ≠ v) (d : T) (u : α) :
    (st.decrease v d u).distance w = st.distance w ∧
      (st.decrease v d u).predecessor w = st.predecessor w ∧
      (st.decrease v d u).discovered w = st.discovered w := by
  simp [decrease, hne]

/-- Settled vertices are not concerned at all. -/
lemma Settled.decrease (hw : st.Settled w) (hv : ¬ st.Settled v) (d : T) (u : α) :
    (st.decrease v d u).Settled w ∧ (st.decrease v d u).distance w = st.distance w ∧
      (st.decrease v d u).predecessor w = st.predecessor w := by
  have hne : w ≠ v := by
    rintro rfl
    exact hv hw
  obtain ⟨hdist, hpred, -⟩ := decrease_of_ne st hne d u
  exact ⟨(settled_decrease hv d u).mpr hw, hdist, hpred⟩

/-- The queue stays one of vertices that are discovered, each once. -/
lemma decrease_queue (h : st.queue.Nodup ∧ ∀ w ∈ st.queue, st.discovered w = true) (d : T)
    (u : α) : (st.decrease v d u).queue.Nodup ∧
      ∀ w ∈ (st.decrease v d u).queue, (st.decrease v d u).discovered w = true := by
  refine ⟨?_, fun w hw => ?_⟩
  · rw [decrease]
    dsimp only
    split
    · exact h.1
    · next hdisc =>
        refine h.1.append (List.nodup_singleton _) fun x hx hx' => ?_
        rw [List.mem_singleton.mp hx'] at hx
        exact hdisc (h.2 _ hx)
  · by_cases hwv : w = v
    · rw [hwv, decrease_discovered_self]
    · rw [(decrease_of_ne st hwv d u).2.2]
      exact h.2 w ((decrease_queue_subset d u hw).resolve_left hwv)

end DijkstraState

variable [LT T] [Add T] [Zero T] [ArithmeticType T]

/-- The predecessors lead from `v` back along `p`: all vertices before `v` are settled and
none of them comes twice, and the distances are the sums so far. -/
inductive TreePath (out : α → List E) (target : E → α) (weight : E → T) (s : α)
    (st : DijkstraState α T) : List E → α → Prop where
  | nil : TreePath out target weight s st [] s
  | snoc {p : List E} {u : α} {e : E} (hp : TreePath out target weight s st p u)
      (hu : st.Settled u) (he : e ∈ out u) (hnew : target e ∉ s :: p.map target)
      (hpred : st.predecessor (target e) = u)
      (hdist : value (st.distance (target e)) = value (st.distance u) + value (weight e)) :
      TreePath out target weight s st (p ++ [e]) (target e)

namespace TreePath

variable {out : α → List E} {target : E → α} {weight : E → T} {s v : α} {p : List E}
  {st st' : DijkstraState α T}

omit [DecidableEq α] in
lemma isPath (h : TreePath out target weight s st p v) : IsPath out target s p v := by
  induction h with
  | nil => exact .nil
  | snoc _ _ he _ _ _ ih => exact ih.snoc he

omit [DecidableEq α] in
lemma isSimple (h : TreePath out target weight s st p v) : IsSimple target s p := by
  induction h with
  | nil => exact List.nodup_singleton s
  | snoc _ _ _ hnew _ _ ih => exact isSimple_concat.mpr ⟨ih, hnew⟩

omit [DecidableEq α] in
/-- The distance is the sum along the path. -/
lemma sum (h : TreePath out target weight s st p v) (hs : st.distance s = 0) :
    value (st.distance v) = pathSum weight p := by
  induction h with
  | nil => rw [hs, value_zero, pathSum_nil]
  | snoc _ _ _ _ _ hdist ih => rw [hdist, ih, pathSum_concat]

omit [DecidableEq α] in
/-- The vertices on the way to a settled vertex are settled. -/
lemma settled (h : TreePath out target weight s st p v) (hv : st.Settled v) :
    ∀ w ∈ s :: p.map target, st.Settled w := by
  induction h with
  | nil =>
      intro w hw
      rw [List.mem_singleton.mp hw]
      exact hv
  | @snoc p u e hp hu he hnew hpred hdist ih =>
      intro w hw
      rw [List.map_append, ← List.cons_append] at hw
      rcases List.mem_append.mp hw with hw | hw
      · exact ih hu w hw
      · rw [List.mem_singleton.mp hw]
        exact hv

omit [DecidableEq α] in
/-- The path stays when the settled vertices and its end do. -/
lemma mono (h : TreePath out target weight s st p v)
    (hkeep : ∀ w, st.Settled w → st'.Settled w ∧ st'.distance w = st.distance w ∧
      st'.predecessor w = st.predecessor w)
    (hv : st'.distance v = st.distance v ∧ st'.predecessor v = st.predecessor v) :
    TreePath out target weight s st' p v := by
  induction h with
  | nil => exact .nil
  | @snoc p u e hp hu he hnew hpred hdist ih =>
      obtain ⟨hsettled, hkept⟩ := hkeep u hu
      refine (ih hkept).snoc hsettled he hnew ?_ ?_
      · rw [hv.2, hpred]
      · rw [hv.1, hkept.1, hdist]

end TreePath

/-! ### The invariant -/

/-- The state between two rounds, or within the round of `u` before the edges `pending`. -/
structure DijkstraInv (out : α → List E) (target : E → α) (weight : E → T) (s : α)
    (st : DijkstraState α T) (u : α) (pending : List E) : Prop where
  start : st.discovered s = true ∧ st.distance s = 0
  white : ∀ v, st.discovered v = false → st.distance v = maximum
  queue : st.queue.Nodup ∧ ∀ v ∈ st.queue, st.discovered v = true
  tree : ∀ v, st.discovered v = true → ∃ p, TreePath out target weight s st p v
  /-- Settled vertices are no farther than those in the queue. -/
  ahead : ∀ w, st.Settled w → ∀ v ∈ st.queue, value (st.distance w) ≤ value (st.distance v)
  /-- The edges out of a settled vertex have been examined. -/
  closed : ∀ w, st.Settled w → ∀ e ∈ out w, (w = u ∧ e ∈ pending) ∨
    st.discovered (target e) = true ∧
      value (st.distance (target e)) ≤ value (st.distance w) + value (weight e)

/-- The state within the round of `u`, which is settled as the last vertex. -/
structure DijkstraMid (out : α → List E) (target : E → α) (weight : E → T) (s : α)
    (st : DijkstraState α T) (u : α) (pending : List E) : Prop extends
    DijkstraInv out target weight s st u pending where
  current : st.Settled u
  last : ∀ w, st.Settled w → value (st.distance w) ≤ value (st.distance u)

section Invariant

variable [DecidableLT T] [DecidableEq T] {out : α → List E} {target : E → α} {weight : E → T}
  {s u : α} {st : DijkstraState α T} {pending : List E}

omit [DecidableEq α] [DecidableLT T] [DecidableEq T] in
/-- Between two rounds it does not matter whose round it was. -/
lemma DijkstraInv.next (h : DijkstraInv out target weight s st u []) (v : α) :
    DijkstraInv out target weight s st v [] where
  start := h.start
  white := h.white
  queue := h.queue
  tree := h.tree
  ahead := h.ahead
  closed w hw e he := .inr ((h.closed w hw e he).resolve_left (by simp))

omit [DecidableLT T] [DecidableEq T] in
lemma DijkstraInv.init (s u : α) :
    DijkstraInv out target weight s (dijkstraInit s : DijkstraState α T) u [] where
  start := by simp [dijkstraInit]
  white v hv := by
    by_cases hvs : v = s
    · simp [dijkstraInit, hvs] at hv
    · simp [dijkstraInit, hvs]
  queue := by simp [dijkstraInit]
  tree v hv := by
    by_cases hvs : v = s
    · subst hvs
      exact ⟨[], .nil⟩
    · simp [dijkstraInit, hvs] at hv
  ahead w hw := by
    by_cases hws : w = s
    · exact absurd hw.2 (by simp [dijkstraInit, hws])
    · exact absurd hw.1 (by simp [dijkstraInit, hws])
  closed w hw := by
    by_cases hws : w = s
    · exact absurd hw.2 (by simp [dijkstraInit, hws])
    · exact absurd hw.1 (by simp [dijkstraInit, hws])

omit [DecidableLT T] [DecidableEq T] in
/-- A vertex of least distance is taken from the queue. -/
lemma DijkstraInv.pop (h : DijkstraInv out target weight s st u []) {v : α}
    (hv : v ∈ st.queue) (hleast : ∀ w ∈ st.queue, ¬ st.distance w < st.distance v) :
    DijkstraMid out target weight s { st with queue := st.queue.erase v } v (out v) := by
  have hsettled : ∀ w, DijkstraState.Settled { st with queue := st.queue.erase v } w →
      w = v ∨ st.Settled w := by
    rintro w ⟨hdisc, hmem⟩
    by_cases hwv : w = v
    · exact .inl hwv
    · exact .inr ⟨hdisc, fun hw => hmem ((List.mem_erase_of_ne hwv).mpr hw)⟩
  have hkeep : ∀ w, st.Settled w →
      DijkstraState.Settled { st with queue := st.queue.erase v } w := fun w hw =>
    ⟨hw.1, fun hmem => hw.2 (List.mem_of_mem_erase hmem)⟩
  have hle : ∀ w ∈ st.queue, value (st.distance v) ≤ value (st.distance w) := fun w hw =>
    not_lt.mp ((lt_iff _ _).not.mp (hleast w hw))
  refine ⟨⟨h.start, h.white, ⟨h.queue.1.erase v, fun w hw =>
    h.queue.2 w (List.mem_of_mem_erase hw)⟩, fun w hw => ?_, fun w hw x hx => ?_,
    fun w hw e he => ?_⟩, ⟨h.queue.2 v hv, h.queue.1.not_mem_erase⟩, fun w hw => ?_⟩
  · obtain ⟨p, hp⟩ := h.tree w hw
    exact ⟨p, hp.mono (fun x hx => ⟨hkeep x hx, rfl, rfl⟩) ⟨rfl, rfl⟩⟩
  · rcases hsettled w hw with rfl | hw
    · exact hle x (List.mem_of_mem_erase hx)
    · exact h.ahead w hw x (List.mem_of_mem_erase hx)
  · rcases hsettled w hw with rfl | hw
    · exact .inl ⟨rfl, he⟩
    · exact .inr ((h.closed w hw e he).resolve_left (by simp))
  · rcases hsettled w hw with rfl | hw
    · exact le_rfl
    · exact h.ahead w hw v hv

namespace DijkstraMid

variable {e : E}

omit [DecidableEq α] [DecidableLT T] [DecidableEq T] in
/-- The distance of the current vertex is the sum along its path. -/
lemma exists_sum (h : DijkstraMid out target weight s st u pending)
    (hfit : SumsFit out target weight s) : ∃ p, TreePath out target weight s st p u ∧
      value (st.distance u) = pathSum weight p ∧ 0 ≤ value (st.distance u) ∧
      value (st.distance u) < value (maximum : T) := by
  obtain ⟨p, hp⟩ := h.tree u h.current.1
  have hsum := hp.sum h.start.2
  rw [hsum]
  exact ⟨p, hp, rfl, hfit.pathSum_nonneg hp.isPath, hfit.simple p u hp.isPath hp.isSimple⟩

omit [DecidableEq α] [DecidableLT T] in
/-- The distance along the edge is exact, or infinite like the edge. -/
lemma sum_cases (h : DijkstraMid out target weight s st u pending)
    (hfit : SumsFit out target weight s) (he : e ∈ out u) :
    (weight e = maximum ∧ closedPlus (st.distance u) (weight e) = maximum) ∨
      value (closedPlus (st.distance u) (weight e)) =
        value (st.distance u) + value (weight e) := by
  obtain ⟨p, hp, hsum, hnonneg, hlt⟩ := h.exists_sum hfit
  refine closedPlus_cases hnonneg hlt (hfit.nonneg u e he) ?_
  rw [hsum]
  exact hfit.edge p u hp.isPath hp.isSimple e he

omit [DecidableEq α] [DecidableLT T] in
/-- To a vertex that is not settled it is exact and finite. -/
lemma sum_eq (h : DijkstraMid out target weight s st u pending)
    (hfit : SumsFit out target weight s) (he : e ∈ out u) (hv : ¬ st.Settled (target e)) :
    value (closedPlus (st.distance u) (weight e)) = value (st.distance u) + value (weight e) ∧
      value (st.distance u) + value (weight e) < value (maximum : T) := by
  obtain ⟨p, hp, hsum, hnonneg, -⟩ := h.exists_sum hfit
  have hnew : target e ∉ s :: p.map target := fun hmem => hv (hp.settled h.current _ hmem)
  have hlt := hfit.simple (p ++ [e]) (target e) (hp.isPath.snoc he)
    (isSimple_concat.mpr ⟨hp.isSimple, hnew⟩)
  rw [pathSum_concat, ← hsum] at hlt
  refine ⟨(h.sum_cases hfit he).resolve_left fun hmax => ?_, hlt⟩
  rw [hmax.1] at hlt
  omega

omit [DecidableEq α] [DecidableLT T] in
/-- An edge that does not lower the distance of its target. -/
lemma keep (h : DijkstraMid out target weight s st u (e :: pending))
    (hfit : SumsFit out target weight s) (he : e ∈ out u)
    (hnot : ¬ closedPlus (st.distance u) (weight e) < st.distance (target e)) :
    DijkstraMid out target weight s st u pending := by
  rw [lt_iff, not_lt] at hnot
  have hle : value (closedPlus (st.distance u) (weight e)) ≤
      value (st.distance u) + value (weight e) := by
    obtain ⟨-, -, -, hnonneg, -⟩ := h.exists_sum hfit
    rcases h.sum_cases hfit he with ⟨hmax, heq⟩ | heq
    · rw [heq, hmax]
      omega
    · exact heq.le
  have hdisc : st.discovered (target e) = true := by
    -- a white vertex has the distance infinity, which the edge would have lowered
    by_contra hwhite
    obtain ⟨heq, hlt⟩ := h.sum_eq hfit he fun hsettled => hwhite hsettled.1
    rw [h.white _ (by simpa using hwhite), heq] at hnot
    omega
  refine ⟨⟨h.start, h.white, h.queue, h.tree, h.ahead, fun w hw e' he' => ?_⟩, h.current, h.last⟩
  rcases h.closed w hw e' he' with ⟨rfl, hmem⟩ | hdone
  · rcases List.mem_cons.mp hmem with rfl | hmem
    · exact .inr ⟨hdisc, hnot.trans hle⟩
    · exact .inl ⟨rfl, hmem⟩
  · exact .inr hdone

omit [DecidableEq α] [DecidableLT T] in
/-- An edge cannot lower the distance of a settled vertex, which is no farther than `u`. -/
lemma not_settled (h : DijkstraMid out target weight s st u pending)
    (hfit : SumsFit out target weight s) (he : e ∈ out u)
    (hlt : closedPlus (st.distance u) (weight e) < st.distance (target e)) :
    ¬ st.Settled (target e) := by
  intro hsettled
  rw [lt_iff] at hlt
  have hlast := h.last _ hsettled
  have hweight := hfit.nonneg u e he
  rcases h.sum_cases hfit he with ⟨-, heq⟩ | heq
  · rw [heq] at hlt
    exact not_le.mpr hlt (value_le_max _)
  · omega

omit [DecidableLT T] in
/-- An edge that lowers the distance of its target. -/
lemma decrease (h : DijkstraMid out target weight s st u (e :: pending))
    (hfit : SumsFit out target weight s) (he : e ∈ out u)
    (hlt : closedPlus (st.distance u) (weight e) < st.distance (target e)) :
    DijkstraMid out target weight s
      (st.decrease (target e) (closedPlus (st.distance u) (weight e)) u) u pending := by
  have hv := h.not_settled hfit he hlt
  obtain ⟨heq, -⟩ := h.sum_eq hfit he hv
  obtain ⟨p, hp, -, -, -⟩ := h.exists_sum hfit
  have hpath := hp.settled h.current
  have hweight := hfit.nonneg u e he
  rw [lt_iff] at hlt
  set d := closedPlus (st.distance u) (weight e) with hd
  have hkeep : ∀ w, st.Settled w → (st.decrease (target e) d u).Settled w ∧
      (st.decrease (target e) d u).distance w = st.distance w ∧
      (st.decrease (target e) d u).predecessor w = st.predecessor w := fun w hw =>
    hw.decrease hv d u
  have hs : s ≠ target e := by
    intro heq
    exact hv (heq ▸ hpath s List.mem_cons_self)
  refine ⟨⟨⟨?_, ?_⟩, fun w hw => ?_, DijkstraState.decrease_queue h.queue d u, fun w hw => ?_,
    fun w hw x hx => ?_, fun w hw e' he' => ?_⟩, (hkeep u h.current).1, fun w hw => ?_⟩
  · rw [(DijkstraState.decrease_of_ne st hs d u).2.2, h.start.1]
  · rw [(DijkstraState.decrease_of_ne st hs d u).1, h.start.2]
  · by_cases hwv : w = target e
    · rw [hwv, DijkstraState.decrease_discovered_self] at hw
      cases hw
    · obtain ⟨hdist, -, hdisc⟩ := DijkstraState.decrease_of_ne st hwv d u
      rw [hdist, h.white w (hdisc ▸ hw)]
  · by_cases hwv : w = target e
    · -- the way to the target goes through `u`
      subst hwv
      refine ⟨p ++ [e], (hp.mono hkeep (hkeep u h.current).2).snoc (hkeep u h.current).1 he
        (fun hmem => hv (hpath _ hmem)) ?_ ?_⟩
      · rw [DijkstraState.decrease_predecessor_self]
      · rw [DijkstraState.decrease_distance_self, (hkeep u h.current).2.1, heq]
    · obtain ⟨hdist, hpred, hdisc⟩ := DijkstraState.decrease_of_ne st hwv d u
      obtain ⟨q, hq⟩ := h.tree w (hdisc ▸ hw)
      exact ⟨q, hq.mono hkeep ⟨hdist, hpred⟩⟩
  · have hw := (DijkstraState.settled_decrease hv d u).mp hw
    rw [(hkeep w hw).2.1]
    by_cases hxv : x = target e
    · have hlast := h.last w hw
      rw [hxv, DijkstraState.decrease_distance_self, heq]
      omega
    · rw [(DijkstraState.decrease_of_ne st hxv d u).1]
      exact h.ahead w hw x ((DijkstraState.decrease_queue_subset d u hx).resolve_left hxv)
  · have hw := (DijkstraState.settled_decrease hv d u).mp hw
    rw [(hkeep w hw).2.1]
    by_cases htarget : target e' = target e
    · rw [htarget, DijkstraState.decrease_discovered_self, DijkstraState.decrease_distance_self]
      rcases h.closed w hw e' he' with ⟨rfl, hmem⟩ | ⟨-, hle⟩
      · rcases List.mem_cons.mp hmem with rfl | hmem
        · exact .inr ⟨rfl, heq.le⟩
        · exact .inl ⟨rfl, hmem⟩
      · rw [htarget] at hle
        exact .inr ⟨rfl, hlt.le.trans hle⟩
    · obtain ⟨hdist, -, hdisc⟩ := DijkstraState.decrease_of_ne st htarget d u
      rw [hdist, hdisc]
      rcases h.closed w hw e' he' with ⟨rfl, hmem⟩ | hdone
      · rcases List.mem_cons.mp hmem with rfl | hmem
        · exact absurd rfl htarget
        · exact .inl ⟨rfl, hmem⟩
      · exact .inr hdone
  · have hw := (DijkstraState.settled_decrease hv d u).mp hw
    rw [(hkeep w hw).2.1, (hkeep u h.current).2.1]
    exact h.last w hw

/-- **An edge is examined.** -/
lemma examine (h : DijkstraMid out target weight s st u (e :: pending))
    (hfit : SumsFit out target weight s) (he : e ∈ out u) :
    DijkstraMid out target weight s (st.examine target weight u e) u pending := by
  rw [DijkstraState.examine]
  split
  · next hlt => exact h.decrease hfit he hlt
  · next hnot => exact h.keep hfit he hnot

/-- All edges are examined. -/
lemma examineAll (hfit : SumsFit out target weight s) (hpending : ∀ e ∈ pending, e ∈ out u)
    (h : DijkstraMid out target weight s st u pending) :
    DijkstraMid out target weight s
      (pending.foldl (DijkstraState.examine target weight u) st) u [] := by
  induction pending generalizing st with
  | nil => exact h
  | cons e pending ih =>
      exact ih (fun e' he' => hpending e' (List.mem_cons_of_mem _ he'))
        (h.examine hfit (hpending e List.mem_cons_self))

end DijkstraMid

/-- **Every round keeps the invariant.** -/
theorem DijkstraInv.loop (hfit : SumsFit out target weight s) (Q : ExtractMin α T) (fuel : ℕ)
    (h : DijkstraInv out target weight s st u []) :
    DijkstraInv out target weight s (dijkstraLoop Q out target weight fuel st) u [] := by
  induction fuel generalizing st with
  | zero => exact h
  | succ fuel ih =>
      rw [dijkstraLoop]
      cases hqueue : st.queue with
      | nil => exact h
      | cons v vs =>
          have hmem := Q.mem st.distance v vs
          have hleast := Q.least st.distance v vs
          rw [← hqueue] at hmem hleast
          have hmid := (h.next u).pop hmem hleast
          rw [hqueue] at hmid
          exact ih ((hmid.examineAll hfit fun _ he => he).toDijkstraInv.next u)

end Invariant

/-! ### The queue gets empty -/

section Fuel

variable [DecidableLT T] [DecidableEq T] {out : α → List E} {target : E → α} {weight : E → T}

/-- The vertices of `vs` that are white, and the vertices in the queue. -/
def DijkstraState.work (vs : Finset α) (st : DijkstraState α T) : ℕ :=
  (vs.filter fun v => st.discovered v = false).card + st.queue.length

/-- Examining an edge into `vs` makes no work. -/
lemma DijkstraState.work_examine {vs : Finset α} {u : α} {st : DijkstraState α T} {e : E}
    (he : target e ∈ vs) : (st.examine target weight u e).work vs ≤ st.work vs := by
  rw [examine]
  split
  case isFalse => exact le_rfl
  case isTrue =>
    rw [work, work, decrease]
    dsimp only
    cases hdisc : st.discovered (target e) with
    | true => rw [if_pos rfl, Function.update_eq_self_iff.mpr hdisc.symm]
    | false =>
        rw [if_neg (by simp), List.length_append, List.length_singleton]
        have hlt := card_undiscovered_lt st.discovered he hdisc
        omega

lemma DijkstraState.work_examineAll {vs : Finset α} {u : α} {es : List E}
    (hes : ∀ e ∈ es, target e ∈ vs) (st : DijkstraState α T) :
    (es.foldl (DijkstraState.examine target weight u) st).work vs ≤ st.work vs := by
  induction es generalizing st with
  | nil => exact le_rfl
  | cons e es ih =>
      exact (ih (fun e' he' => hes e' (List.mem_cons_of_mem _ he')) _).trans
        (DijkstraState.work_examine (hes e List.mem_cons_self))

lemma dijkstraLoop_queue {vs : Finset α} (hvs : ∀ u, ∀ e ∈ out u, target e ∈ vs)
    (Q : ExtractMin α T) {fuel : ℕ} {st : DijkstraState α T} (hfuel : st.work vs ≤ fuel) :
    (dijkstraLoop Q out target weight fuel st).queue = [] := by
  induction fuel generalizing st with
  | zero =>
      rw [dijkstraLoop]
      rw [DijkstraState.work] at hfuel
      exact List.length_eq_zero_iff.mp (by omega)
  | succ fuel ih =>
      rw [dijkstraLoop]
      cases hqueue : st.queue with
      | nil => exact hqueue
      | cons v vs' =>
          refine ih ((DijkstraState.work_examineAll (hvs _) _).trans ?_)
          have hlength := List.length_erase_of_mem (Q.mem st.distance v vs')
          rw [List.length_cons] at hlength
          rw [DijkstraState.work, hqueue, List.length_cons] at hfuel
          rw [DijkstraState.work]
          dsimp only
          omega

/-- **As many rounds as there are vertices suffice.** -/
theorem dijkstra_queue {vs : Finset α} (hvs : ∀ u, ∀ e ∈ out u, target e ∈ vs)
    (Q : ExtractMin α T) {s : α} (hs : s ∈ vs) :
    (dijkstra Q out target weight vs.card s).queue = [] := by
  refine dijkstraLoop_queue hvs Q ?_
  have hlt := card_undiscovered_lt (fun _ => false) hs rfl
  rw [Finset.filter_true_of_mem fun _ _ => rfl] at hlt
  rw [DijkstraState.work, dijkstraInit, List.length_singleton]
  exact hlt

end Fuel

/-! ### Least sums -/

section Correct

variable [DecidableLT T] [DecidableEq T] {out : α → List E} {target : E → α} {weight : E → T}
  {vs : Finset α} (hvs : ∀ u, ∀ e ∈ out u, target e ∈ vs) {s : α} (hs : s ∈ vs)
  (hfit : SumsFit out target weight s) (Q : ExtractMin α T)

include hfit in
/-- The invariant at the end of the algorithm. -/
lemma dijkstraInv_dijkstra (fuel : ℕ) :
    DijkstraInv out target weight s (dijkstra Q out target weight fuel s) s [] :=
  (DijkstraInv.init s s).loop hfit Q fuel

include hvs hs hfit

/-- At the end the edges out of all vertices discovered have been examined. -/
lemma dijkstra_closed {u : α} {e : E}
    (hu : (dijkstra Q out target weight vs.card s).discovered u = true) (he : e ∈ out u) :
    (dijkstra Q out target weight vs.card s).discovered (target e) = true ∧
      value ((dijkstra Q out target weight vs.card s).distance (target e)) ≤
        value ((dijkstra Q out target weight vs.card s).distance u) + value (weight e) := by
  have hsettled : (dijkstra Q out target weight vs.card s).Settled u := by
    refine ⟨hu, ?_⟩
    rw [dijkstra_queue hvs Q hs]
    exact List.not_mem_nil
  exact ((dijkstraInv_dijkstra hfit Q vs.card).closed u hsettled e he).resolve_left (by simp)

/-- Along a path everything is discovered, at no greater distance than the sum. -/
lemma dijkstra_le_pathSum {q : List E} {v : α} (hq : IsPath out target s q v) :
    (dijkstra Q out target weight vs.card s).discovered v = true ∧
      value ((dijkstra Q out target weight vs.card s).distance v) ≤ pathSum weight q := by
  have hinv := dijkstraInv_dijkstra hfit Q vs.card
  induction hq with
  | nil => exact ⟨hinv.start.1, by rw [hinv.start.2, value_zero, pathSum_nil]⟩
  | @snoc q u e _ he ih =>
      obtain ⟨hdisc, hle⟩ := dijkstra_closed hvs hs hfit Q ih.1 he
      refine ⟨hdisc, ?_⟩
      rw [pathSum_concat]
      exact hle.trans (add_le_add_left ih.2 _)

/-- **The predecessors lead back to the start vertex** from every vertex that is
reachable. -/
theorem dijkstra_tree {q : List E} {v : α} (hq : IsPath out target s q v) :
    ∃ p, TreePath out target weight s (dijkstra Q out target weight vs.card s) p v :=
  (dijkstraInv_dijkstra hfit Q vs.card).tree v (dijkstra_le_pathSum hvs hs hfit Q hq).1

/-- **The distance is the least sum of a path**, and infinite where there is no path. -/
theorem dijkstra_distance (v : α) :
    (∃ p, IsPath out target s p v ∧
      value ((dijkstra Q out target weight vs.card s).distance v) = pathSum weight p ∧
      ∀ q, IsPath out target s q v → pathSum weight p ≤ pathSum weight q) ∨
    (dijkstra Q out target weight vs.card s).distance v = maximum ∧
      ∀ q, ¬ IsPath out target s q v := by
  have hinv := dijkstraInv_dijkstra hfit Q vs.card
  cases hdisc : (dijkstra Q out target weight vs.card s).discovered v with
  | true =>
      obtain ⟨p, hp⟩ := hinv.tree v hdisc
      have hsum := hp.sum hinv.start.2
      refine .inl ⟨p, hp.isPath, hsum, fun q hq => ?_⟩
      rw [← hsum]
      exact (dijkstra_le_pathSum hvs hs hfit Q hq).2
  | false =>
      refine .inr ⟨hinv.white v hdisc, fun q hq => ?_⟩
      rw [(dijkstra_le_pathSum hvs hs hfit Q hq).1] at hdisc
      cases hdisc

end Correct

end Search
