import Mathlib.Tactic
import Mathlib.Data.Finset.Card

/-!
Breadth-first search with a queue and a callback on tree edges.

A graph is given by the edges out of each vertex, in order, and their targets.
`bfs` discovers the vertices reachable from a start vertex; an edge to a vertex
not discovered before is a tree edge, on which the callback computes the value
of the target from that of the source.

* `IsPath`, `IsPath.reverse`: paths, and paths turned round.
* `map_bfs`: runs with related callbacks have related values, so that
  every run is the image of the one that collects the path
  (`bfs_value_eq_foldl`).
* `BfsInv`: the invariant of that run. The queue is sorted by distance, spans
  at most two distances, and the edges out of finished vertices are short.
* `bfs_queue`, `bfs_correct`: the queue is empty at the end, and the paths
  collected are shortest paths; by `BfsInv.beginning` they form a tree.
-/

variable {α E T T' : Type}

/-! ### Paths -/

/-- The edges of `p` lead from `s` to `v`. -/
inductive IsPath (out : α → List E) (target : E → α) (s : α) : List E → α → Prop where
  | nil : IsPath out target s [] s
  | snoc {p : List E} {u : α} {e : E} (hp : IsPath out target s p u) (he : e ∈ out u) :
      IsPath out target s (p ++ [e]) (target e)

namespace IsPath

variable {out : α → List E} {target : E → α}

/-- An edge in front of a path. -/
lemma cons {s v : α} {e : E} {p : List E} (he : e ∈ out s) (hp : IsPath out target (target e) p v) :
    IsPath out target s (e :: p) v := by
  induction hp with
  | nil => exact .snoc .nil he
  | @snoc p u e' _ he' ih => exact ih.snoc he'

/-- A path after a path. -/
lemma append {s u v : α} {p q : List E} (hp : IsPath out target s p u)
    (hq : IsPath out target u q v) : IsPath out target s (p ++ q) v := by
  induction hq with
  | nil => rwa [List.append_nil]
  | snoc _ he ih =>
      rw [← List.append_assoc]
      exact ih.snoc he

/-- A list of edges leads to one vertex at most. -/
lemma end_unique {s v v' : α} {p : List E} (hp : IsPath out target s p v)
    (hp' : IsPath out target s p v') : v = v' := by
  cases hp with
  | nil =>
      generalize hnil : ([] : List E) = q at hp'
      cases hp' with
      | nil => rfl
      | snoc => simp at hnil
  | @snoc p u e _ _ =>
      generalize hq : p ++ [e] = q at hp'
      cases hp' with
      | nil => simp at hq
      | snoc =>
          obtain ⟨-, heq⟩ := List.append_inj' hq rfl
          rw [List.singleton_inj.mp heq]

/-- If every edge can be gone back, so can every path. -/
theorem reverse (hback : ∀ u, ∀ e ∈ out u, ∃ e' ∈ out (target e), target e' = u) {s v : α}
    {p : List E} (hp : IsPath out target s p v) :
    ∃ q, IsPath out target v q s ∧ q.length = p.length := by
  induction hp with
  | nil => exact ⟨[], .nil, rfl⟩
  | @snoc p u e _ he ih =>
      obtain ⟨q, hq, hlength⟩ := ih
      obtain ⟨e', he', rfl⟩ := hback u e he
      exact ⟨e' :: q, hq.cons he', by simp [hlength]⟩

end IsPath

/-! ### The search -/

/-- The queue, which vertices are discovered, and the values. -/
structure BfsState (α T : Type) where
  queue : List α
  discovered : α → Bool
  value : α → T

section Search

variable [DecidableEq α]

/-- An edge out of `u` is examined. -/
def BfsState.examine (target : E → α) (f : E → T → T) (u : α) (st : BfsState α T) (e : E) :
    BfsState α T :=
  if st.discovered (target e) then st
  else
    { queue := st.queue ++ [target e]
      discovered := Function.update st.discovered (target e) true
      value := Function.update st.value (target e) (f e (st.value u)) }

/-- The loop takes a vertex from the queue and examines the edges out of it. -/
def bfsLoop (out : α → List E) (target : E → α) (f : E → T → T) :
    ℕ → BfsState α T → BfsState α T
  | 0, st => st
  | fuel + 1, st =>
      match st.queue with
      | [] => st
      | u :: queue =>
          bfsLoop out target f fuel
            ((out u).foldl (BfsState.examine target f u) { st with queue := queue })

/-- The state at the beginning: the start vertex is discovered. -/
def bfsInit (s : α) (t₀ : T) : BfsState α T where
  queue := [s]
  discovered := Function.update (fun _ => false) s true
  value _ := t₀

/-- The search from `s`, with `fuel` rounds at most and the value `t₀` where no
tree edge leads. -/
def bfs (out : α → List E) (target : E → α) (f : E → T → T) (t₀ : T) (fuel : ℕ) (s : α) :
    BfsState α T :=
  bfsLoop out target f fuel (bfsInit s t₀)

/-! ### Related callbacks -/

/-- The values changed by `h`. -/
def BfsState.map (h : T → T') (st : BfsState α T) : BfsState α T' :=
  ⟨st.queue, st.discovered, h ∘ st.value⟩

section Map

variable {out : α → List E} {target : E → α} {f : E → T → T} {f' : E → T' → T'} {h : T → T'}

lemma BfsState.map_examine (hf : ∀ e t, h (f e t) = f' e (h t)) (u : α) (st : BfsState α T)
    (e : E) : (st.examine target f u e).map h = (st.map h).examine target f' u e := by
  by_cases hdisc : st.discovered (target e) = true
  · rw [examine, if_pos hdisc, examine, if_pos (show (st.map h).discovered (target e) = true from
      hdisc)]
  · rw [examine, if_neg hdisc, examine, if_neg (show ¬ (st.map h).discovered (target e) = true from
      hdisc)]
    simp only [BfsState.map, Function.comp_update, hf, Function.comp_apply]

lemma BfsState.map_examineAll (hf : ∀ e t, h (f e t) = f' e (h t)) (u : α) (es : List E)
    (st : BfsState α T) : (es.foldl (BfsState.examine target f u) st).map h =
      es.foldl (BfsState.examine target f' u) (st.map h) := by
  induction es generalizing st with
  | nil => rfl
  | cons e es ih => rw [List.foldl_cons, List.foldl_cons, ih, BfsState.map_examine hf]

lemma map_bfsLoop (hf : ∀ e t, h (f e t) = f' e (h t)) (fuel : ℕ) (st : BfsState α T) :
    (bfsLoop out target f fuel st).map h = bfsLoop out target f' fuel (st.map h) := by
  induction fuel generalizing st with
  | zero => rfl
  | succ fuel ih =>
      obtain ⟨queue, discovered, value⟩ := st
      cases queue with
      | nil => rfl
      | cons u queue =>
          simp only [bfsLoop, BfsState.map]
          rw [← BfsState.map, ih, BfsState.map_examineAll hf]
          rfl

/-- **A run with another callback is the image of the run.** -/
theorem map_bfs (hf : ∀ e t, h (f e t) = f' e (h t)) (t₀ : T) (fuel : ℕ) (s : α) :
    (bfs out target f t₀ fuel s).map h = bfs out target f' (h t₀) fuel s :=
  map_bfsLoop hf fuel _

end Map

/-- The run that collects the edges on the way. -/
def bfsPaths (out : α → List E) (target : E → α) (fuel : ℕ) (s : α) : BfsState α (List E) :=
  bfs out target (fun e p => p ++ [e]) [] fuel s

/-- **The value at a vertex is the callback folded along the path collected.** -/
theorem bfs_value_eq_foldl (out : α → List E) (target : E → α) (f : E → T → T) (t₀ : T)
    (fuel : ℕ) (s v : α) :
    (bfs out target f t₀ fuel s).value v =
      ((bfsPaths out target fuel s).value v).foldl (fun t e => f e t) t₀ := by
  let fold : List E → T := fun p => p.foldl (fun t e => f e t) t₀
  have hmap : (bfsPaths out target fuel s).map fold = bfs out target f t₀ fuel s :=
    map_bfs (fun e p => by simp [fold]) [] fuel s
  exact (congrFun (congrArg BfsState.value hmap) v).symm

/-! ### The invariant -/

section Invariant

variable {out : α → List E} {target : E → α} {s : α}

/-- The distance recorded for a vertex. -/
def BfsState.level (st : BfsState α (List E)) (v : α) : ℕ := (st.value v).length

/-- The vertex `v` is discovered, by the path `p`. -/
def BfsState.discover (st : BfsState α (List E)) (v : α) (p : List E) : BfsState α (List E) where
  queue := st.queue ++ [v]
  discovered := Function.update st.discovered v true
  value := Function.update st.value v p

section Discover

variable {st : BfsState α (List E)} {v w : α} {p : List E}

lemma BfsState.discover_queue : (st.discover v p).queue = st.queue ++ [v] := rfl

lemma BfsState.discover_discovered :
    (st.discover v p).discovered w = true ↔ w = v ∨ st.discovered w = true := by
  by_cases hwv : w = v <;> simp [discover, hwv]

lemma BfsState.discover_value_self : (st.discover v p).value v = p := by
  simp [discover]

lemma BfsState.discover_value_of_ne (hwv : w ≠ v) : (st.discover v p).value w = st.value w := by
  simp [discover, hwv]

end Discover

/-- The state between two rounds. -/
structure BfsInv (out : α → List E) (target : E → α) (s : α) (st : BfsState α (List E)) : Prop
    where
  start : st.discovered s = true ∧ st.value s = []
  path : ∀ v, st.discovered v = true → IsPath out target s (st.value v) v
  /-- A tree edge leads to every other vertex discovered. -/
  tree : ∀ v, st.discovered v = true → v = s ∨
    ∃ u e, st.discovered u = true ∧ st.value v = st.value u ++ [e]
  white : ∀ v, st.discovered v = false → st.value v = []
  queue : ∀ v ∈ st.queue, st.discovered v = true
  sorted : st.queue.Pairwise fun u v => st.level u ≤ st.level v
  /-- Nothing discovered is far from the queue. -/
  near : ∀ u ∈ st.queue, ∀ v, st.discovered v = true → st.level v ≤ st.level u + 1
  /-- The edges out of a finished vertex have been examined. -/
  closed : ∀ u, st.discovered u = true → u ∉ st.queue → ∀ e ∈ out u,
    st.discovered (target e) = true ∧ st.level (target e) ≤ st.level u + 1

/-- The state within the round of `u`, after the edges `done`. -/
structure BfsMid (out : α → List E) (target : E → α) (s u : α) (done : List E)
    (st : BfsState α (List E)) : Prop where
  start : st.discovered s = true ∧ st.value s = []
  path : ∀ v, st.discovered v = true → IsPath out target s (st.value v) v
  tree : ∀ v, st.discovered v = true → v = s ∨
    ∃ u e, st.discovered u = true ∧ st.value v = st.value u ++ [e]
  white : ∀ v, st.discovered v = false → st.value v = []
  current : st.discovered u = true
  queue : ∀ v ∈ st.queue, st.discovered v = true
  sorted : (u :: st.queue).Pairwise fun u v => st.level u ≤ st.level v
  near : ∀ v, st.discovered v = true → st.level v ≤ st.level u + 1
  closed : ∀ w, st.discovered w = true → w ∉ u :: st.queue → ∀ e ∈ out w,
    st.discovered (target e) = true ∧ st.level (target e) ≤ st.level w + 1
  done : ∀ e ∈ done, st.discovered (target e) = true ∧ st.level (target e) ≤ st.level u + 1

lemma BfsInv.init (s : α) : BfsInv out target s (bfsInit s []) where
  start := by simp [bfsInit]
  path v hv := by
    by_cases hvs : v = s
    · subst hvs
      exact .nil
    · simp [bfsInit, hvs] at hv
  tree v hv := by
    by_cases hvs : v = s
    · exact .inl hvs
    · simp [bfsInit, hvs] at hv
  white v _ := rfl
  queue v hv := by
    rw [List.mem_singleton.mp hv]
    simp [bfsInit]
  sorted := List.pairwise_singleton _ _
  near u _ v _ := by simp [BfsState.level, bfsInit]
  closed u hu hqueue := by
    by_cases hus : u = s
    · subst hus
      simp [bfsInit] at hqueue
    · simp [bfsInit, hus] at hu

omit [DecidableEq α] in
/-- A vertex is taken from the queue. -/
lemma BfsInv.pop {st : BfsState α (List E)} (h : BfsInv out target s st) {u : α} {queue : List α}
    (hqueue : st.queue = u :: queue) :
    BfsMid out target s u [] { st with queue := queue } where
  start := h.start
  path := h.path
  tree := h.tree
  white := h.white
  current := h.queue u (by rw [hqueue]; simp)
  queue v hv := h.queue v (by rw [hqueue]; exact List.mem_cons_of_mem _ hv)
  sorted := by
    have hsorted := h.sorted
    rwa [hqueue] at hsorted
  near := h.near u (by rw [hqueue]; simp)
  closed w hw hwq := h.closed w hw (by rwa [hqueue])
  done := by simp

omit [DecidableEq α] in
/-- An edge to a vertex that is discovered. -/
lemma BfsMid.keep {st : BfsState α (List E)} {u : α} {done : List E}
    (h : BfsMid out target s u done st) {e : E} (hdisc : st.discovered (target e) = true) :
    BfsMid out target s u (done ++ [e]) st := by
  refine ⟨h.start, h.path, h.tree, h.white, h.current, h.queue, h.sorted, h.near, h.closed,
    fun e' he' => ?_⟩
  rcases List.mem_append.mp he' with he' | he'
  · exact h.done e' he'
  · rw [List.mem_singleton.mp he']
    exact ⟨hdisc, h.near _ hdisc⟩

/-- A tree edge. -/
lemma BfsMid.discover {st : BfsState α (List E)} {u : α} {done : List E}
    (h : BfsMid out target s u done st) {e : E} (he : e ∈ out u)
    (hnew : st.discovered (target e) = false) :
    BfsMid out target s u (done ++ [e]) (st.discover (target e) (st.value u ++ [e])) := by
  -- what was discovered before is not the target, and keeps its value
  have hne : ∀ {v}, st.discovered v = true → v ≠ target e := by
    rintro v hv rfl
    rw [hnew] at hv
    cases hv
  have hold : ∀ {v}, st.discovered v = true →
      (st.discover (target e) (st.value u ++ [e])).discovered v = true := fun hv =>
    BfsState.discover_discovered.mpr (.inr hv)
  have hvalue : ∀ {v}, st.discovered v = true →
      (st.discover (target e) (st.value u ++ [e])).value v = st.value v := fun hv =>
    BfsState.discover_value_of_ne (hne hv)
  have hlevel : ∀ {v}, st.discovered v = true →
      (st.discover (target e) (st.value u ++ [e])).level v = st.level v := fun hv =>
    congrArg List.length (hvalue hv)
  have hlast : (st.discover (target e) (st.value u ++ [e])).level (target e) = st.level u + 1 := by
    rw [BfsState.level, BfsState.discover_value_self, List.length_append, List.length_singleton]
    rfl
  refine ⟨⟨hold h.start.1, (hvalue h.start.1).trans h.start.2⟩, fun v hv => ?_, fun v hv => ?_,
    fun v hv => ?_, hold h.current, fun v hv => ?_, ?_, fun v hv => ?_,
    fun w hw hwq e' he' => ?_, fun e' he' => ?_⟩
  · rcases BfsState.discover_discovered.mp hv with rfl | hv
    · rw [BfsState.discover_value_self]
      exact (h.path u h.current).snoc he
    · rw [hvalue hv]
      exact h.path v hv
  · rcases BfsState.discover_discovered.mp hv with rfl | hv
    · refine .inr ⟨u, e, hold h.current, ?_⟩
      rw [BfsState.discover_value_self, hvalue h.current]
    · rcases h.tree v hv with hvs | ⟨w, e', hw, htree⟩
      · exact .inl hvs
      · refine .inr ⟨w, e', hold hw, ?_⟩
        rw [hvalue hv, hvalue hw, htree]
  · rw [← Bool.not_eq_true, BfsState.discover_discovered, not_or] at hv
    rw [BfsState.discover_value_of_ne hv.1]
    exact h.white v (by simpa using hv.2)
  · rcases List.mem_append.mp hv with hv | hv
    · exact hold (h.queue v hv)
    · exact BfsState.discover_discovered.mpr (.inl (List.mem_singleton.mp hv))
  · -- the new vertex is as far as can be
    have hdiscovered : ∀ v ∈ u :: st.queue, st.discovered v = true := by
      intro v hv
      rcases List.mem_cons.mp hv with rfl | hv
      · exact h.current
      · exact h.queue v hv
    have hsorted : (u :: st.queue).Pairwise fun v w =>
        (st.discover (target e) (st.value u ++ [e])).level v ≤
          (st.discover (target e) (st.value u ++ [e])).level w :=
      h.sorted.imp_of_mem fun {a b} ha hb hab => by
        rwa [hlevel (hdiscovered a ha), hlevel (hdiscovered b hb)]
    rw [BfsState.discover_queue, ← List.cons_append]
    refine List.pairwise_append.mpr ⟨hsorted, List.pairwise_singleton _ _, fun a ha b hb => ?_⟩
    rw [List.mem_singleton.mp hb, hlast, hlevel (hdiscovered a ha)]
    exact h.near a (hdiscovered a ha)
  · rw [hlevel h.current]
    rcases BfsState.discover_discovered.mp hv with rfl | hv
    · rw [hlast]
    · rw [hlevel hv]
      exact h.near v hv
  · rw [BfsState.discover_queue, ← List.cons_append, List.mem_append, not_or] at hwq
    rcases BfsState.discover_discovered.mp hw with rfl | hw
    · exact absurd (List.mem_singleton.mpr rfl) hwq.2
    · obtain ⟨htarget, hle⟩ := h.closed w hw hwq.1 e' he'
      rw [hlevel hw, hlevel htarget]
      exact ⟨hold htarget, hle⟩
  · rw [hlevel h.current]
    rcases List.mem_append.mp he' with he' | he'
    · obtain ⟨htarget, hle⟩ := h.done e' he'
      rw [hlevel htarget]
      exact ⟨hold htarget, hle⟩
    · rw [List.mem_singleton.mp he', hlast]
      exact ⟨BfsState.discover_discovered.mpr (.inl rfl), le_rfl⟩

/-- An edge is examined. -/
lemma BfsMid.examine {st : BfsState α (List E)} {u : α} {done : List E}
    (h : BfsMid out target s u done st) {e : E} (he : e ∈ out u) :
    BfsMid out target s u (done ++ [e])
      (st.examine target (fun e p => p ++ [e]) u e) := by
  cases hdisc : st.discovered (target e) with
  | true =>
      rw [BfsState.examine, if_pos hdisc]
      exact h.keep hdisc
  | false =>
      rw [BfsState.examine, if_neg (by simp [hdisc])]
      exact h.discover he hdisc

/-- All edges are examined. -/
lemma BfsMid.examineAll {st : BfsState α (List E)} {u : α} {done : List E}
    (h : BfsMid out target s u done st) (es : List E) (hes : ∀ e ∈ es, e ∈ out u) :
    BfsMid out target s u (done ++ es)
      (es.foldl (BfsState.examine target (fun e p => p ++ [e]) u) st) := by
  induction es generalizing st done with
  | nil => simpa using h
  | cons e es ih =>
      have hstep := ih (h.examine (hes e (by simp))) fun e' he' =>
        hes e' (List.mem_cons_of_mem _ he')
      rwa [List.append_assoc] at hstep

/-- The round of `u` is over. -/
lemma BfsMid.finish {st : BfsState α (List E)} {u : α} (h : BfsMid out target s u (out u) st) :
    BfsInv out target s st where
  start := h.start
  path := h.path
  tree := h.tree
  white := h.white
  queue := h.queue
  sorted := (List.pairwise_cons.mp h.sorted).2
  near v hv w hw := by
    have hle := (List.pairwise_cons.mp h.sorted).1 v hv
    have := h.near w hw
    omega
  closed w hw hwq e he := by
    by_cases hwu : w = u
    · subst hwu
      exact h.done e he
    · exact h.closed w hw (by simp [hwu, hwq]) e he

/-- **Every round keeps the invariant.** -/
theorem BfsInv.loop (fuel : ℕ) {st : BfsState α (List E)} (h : BfsInv out target s st) :
    BfsInv out target s (bfsLoop out target (fun e p => p ++ [e]) fuel st) := by
  induction fuel generalizing st with
  | zero => exact h
  | succ fuel ih =>
      rw [bfsLoop]
      cases hqueue : st.queue with
      | nil => exact h
      | cons u queue =>
          have hmid := (h.pop hqueue).examineAll (out u) fun _ he => he
          rw [List.nil_append] at hmid
          exact ih hmid.finish

omit [DecidableEq α] in
/-- **The paths collected are those of a tree**: a beginning of one is the path collected
for the vertex where it ends. -/
theorem BfsInv.beginning {st : BfsState α (List E)} (h : BfsInv out target s st) {v : α}
    (hv : st.discovered v = true) {q : List E} {w : α} (hq : q <+: st.value v)
    (hw : IsPath out target s q w) : st.discovered w = true ∧ st.value w = q := by
  induction hlength : (st.value v).length generalizing v with
  | zero =>
      have hnil : q = [] := List.prefix_nil.mp (by rwa [List.length_eq_zero_iff.mp hlength] at hq)
      subst hnil
      rw [hw.end_unique .nil]
      exact h.start
  | succ k ih =>
      rcases h.tree v hv with rfl | ⟨u, e, hu, hvalue⟩
      · rw [h.start.2] at hlength
        cases hlength
      · rw [hvalue] at hq hlength
        rcases List.prefix_concat_iff.mp hq with rfl | hq
        · -- the whole path
          rw [hw.end_unique (hvalue ▸ h.path v hv)]
          exact ⟨hv, hvalue⟩
        · exact ih hu hq (by simpa using hlength)

end Invariant

/-! ### The queue gets empty -/

section Fuel

variable {out : α → List E} {target : E → α} {f : E → T → T}

/-- The vertices of `vs` that are not discovered get fewer with each discovery. -/
lemma card_undiscovered_lt {vs : Finset α} (discovered : α → Bool) {v : α}
    (hv : v ∈ vs) (hnew : discovered v = false) :
    (vs.filter fun w => Function.update discovered v true w = false).card <
      (vs.filter fun w => discovered w = false).card := by
  refine Finset.card_lt_card ⟨fun w hw => ?_, fun hsub => ?_⟩
  · rw [Finset.mem_filter] at hw ⊢
    refine ⟨hw.1, ?_⟩
    by_cases hwv : w = v
    · rw [hwv, hnew]
    · rw [← hw.2, Function.update_of_ne hwv]
  · have hmem := hsub (Finset.mem_filter.mpr ⟨hv, hnew⟩)
    simp at hmem

/-- The vertices of `vs` that are not discovered, and the vertices in the queue. -/
def BfsState.work (vs : Finset α) (st : BfsState α T) : ℕ :=
  (vs.filter fun v => st.discovered v = false).card + st.queue.length

/-- Examining an edge into `vs` makes no work. -/
lemma BfsState.work_examine {vs : Finset α} {u : α} {st : BfsState α T} {e : E}
    (he : target e ∈ vs) : (st.examine target f u e).work vs ≤ st.work vs := by
  by_cases hdisc : st.discovered (target e) = true
  · rw [examine, if_pos hdisc]
  · rw [examine, if_neg hdisc, work, work, List.length_append, List.length_singleton]
    have hlt := card_undiscovered_lt st.discovered he (by simpa using hdisc)
    simp only
    omega

lemma BfsState.work_examineAll {vs : Finset α} {u : α} {es : List E}
    (hes : ∀ e ∈ es, target e ∈ vs) (st : BfsState α T) :
    (es.foldl (BfsState.examine target f u) st).work vs ≤ st.work vs := by
  induction es generalizing st with
  | nil => exact le_rfl
  | cons e es ih =>
      exact (ih (fun e' he' => hes e' (List.mem_cons_of_mem _ he')) _).trans
        (BfsState.work_examine (hes e (by simp)))

lemma bfsLoop_queue {vs : Finset α} (hvs : ∀ u, ∀ e ∈ out u, target e ∈ vs) {fuel : ℕ}
    {st : BfsState α T} (hfuel : st.work vs ≤ fuel) :
    (bfsLoop out target f fuel st).queue = [] := by
  induction fuel generalizing st with
  | zero =>
      rw [bfsLoop]
      have hzero : st.queue.length = 0 := by
        rw [BfsState.work] at hfuel
        omega
      exact List.length_eq_zero_iff.mp hzero
  | succ fuel ih =>
      rw [bfsLoop]
      cases hqueue : st.queue with
      | nil => exact hqueue
      | cons u queue =>
          refine ih ((BfsState.work_examineAll (hvs u) _).trans ?_)
          rw [BfsState.work, hqueue, List.length_cons] at hfuel
          rw [BfsState.work]
          simp only
          omega

/-- **As many rounds as there are vertices suffice.** -/
theorem bfs_queue {vs : Finset α} (hvs : ∀ u, ∀ e ∈ out u, target e ∈ vs) {s : α} (hs : s ∈ vs)
    (t₀ : T) : (bfs out target f t₀ vs.card s).queue = [] := by
  refine bfsLoop_queue hvs ?_
  have hlt := card_undiscovered_lt (fun _ => false) hs rfl
  rw [Finset.filter_true_of_mem fun _ _ => rfl] at hlt
  rw [BfsState.work, bfsInit, List.length_singleton]
  exact hlt

end Fuel

/-! ### Shortest paths -/

variable {out : α → List E} {target : E → α}

section Correct

variable {vs : Finset α} (hvs : ∀ u, ∀ e ∈ out u, target e ∈ vs) {s : α} (hs : s ∈ vs)

/-- The invariant at the end of the search. -/
lemma bfsInv_bfsPaths (out : α → List E) (target : E → α) (fuel : ℕ) (s : α) :
    BfsInv out target s (bfsPaths out target fuel s) :=
  (BfsInv.init s).loop fuel

include hvs hs

/-- Along a path everything is discovered, at no greater distance. -/
lemma bfs_discovered {q : List E} {v : α} (hq : IsPath out target s q v) :
    (bfsPaths out target vs.card s).discovered v = true ∧
      (bfsPaths out target vs.card s).level v ≤ q.length := by
  have hinv := bfsInv_bfsPaths out target vs.card s
  have hqueue : (bfsPaths out target vs.card s).queue = [] := bfs_queue hvs hs []
  induction hq with
  | nil => exact ⟨hinv.start.1, by rw [BfsState.level, hinv.start.2]⟩
  | @snoc q u e _ he ih =>
      obtain ⟨hdisc, hle⟩ := hinv.closed u ih.1 (by rw [hqueue]; simp) e he
      refine ⟨hdisc, ?_⟩
      rw [List.length_append, List.length_singleton]
      exact hle.trans (Nat.succ_le_succ ih.2)

/-- **The paths collected are shortest paths**, and what is not discovered is not
reachable. -/
theorem bfs_correct (v : α) :
    let p := (bfsPaths out target vs.card s).value v
    (IsPath out target s p v ∧ ∀ q, IsPath out target s q v → p.length ≤ q.length) ∨
      p = [] ∧ ∀ q, ¬ IsPath out target s q v := by
  intro p
  have hinv := bfsInv_bfsPaths out target vs.card s
  cases hdisc : (bfsPaths out target vs.card s).discovered v with
  | true => exact .inl ⟨hinv.path v hdisc, fun q hq => (bfs_discovered hvs hs hq).2⟩
  | false =>
      refine .inr ⟨hinv.white v hdisc, fun q hq => ?_⟩
      rw [(bfs_discovered hvs hs hq).1] at hdisc
      cases hdisc

end Correct

end Search
