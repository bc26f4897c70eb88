import Yloc.Graph

/-!
The identifier map over sequences of `add_vertex()`, `add_vertex(id)` and
`operator[](id)`.

* `GraphOp.run`, `history`: one call, and a sequence of calls on an initially
  empty graph together with the vertices they returned or accessed.
* `StepOk`, `HistoryOk`: what the identifier map is for: accesses in range,
  bound identifiers naming existing and pairwise different vertices, and
  `add_vertex(id)` answering as before or with a new vertex.
* `IdentifiersOk`: the invariant. An identifier is bound exactly when
  `add_vertex` has returned a vertex for it, which every call keeps
  (`IdentifiersOk.step`) as long as `operator[]` is called for bound
  identifiers only.
* `historyOk_iff`: this condition is exact. A lookup of an unbound identifier
  binds it to vertex 0, and the next `add_vertex` of the identifier shows it.
-/

namespace Yloc

/-- The calls under which vertices are created and looked up. -/
inductive GraphOp where
  /-- `add_vertex()` -/
  | addVertex
  /-- `add_vertex(id)` -/
  | addVertexId (id : Identifier)
  /-- `operator[](id)` -/
  | atId (id : Identifier)
  deriving DecidableEq, Repr

variable {n : ℕ}

/-- The vertex a call returns (for `operator[]`, accesses) and the graph it leaves. -/
def GraphOp.run (op : GraphOp) (g : Graph n) : VertexT × Graph n :=
  match op with
  | .addVertex => g.addVertex
  | .addVertexId id => g.addVertexId id
  | .atId id => g.atId id

/-- The graph after a sequence of calls on an empty graph, and the calls made
with their vertices, the earliest first. -/
def history (n : ℕ) (ops : List GraphOp) : Graph n × List (GraphOp × VertexT) :=
  ops.foldl (fun s op => ((op.run s.1).2, s.2 ++ [(op, (op.run s.1).1)])) ({}, [])

@[simp] lemma history_nil : history n [] = ({}, []) := rfl

lemma history_append_singleton (ops : List GraphOp) (op : GraphOp) :
    history n (ops ++ [op]) =
      ((op.run (history n ops).1).2,
        (history n ops).2 ++ [(op, (op.run (history n ops).1).1)]) := by
  simp [history]

/-- The call `op` on the graph `g`, after the calls `calls`, does what the
identifier map promises. -/
structure StepOk (g : Graph n) (calls : List (GraphOp × VertexT)) (op : GraphOp) : Prop where
  /-- The vertex returned or accessed exists. -/
  inRange : (op.run g).1 < (op.run g).2.numVertices
  /-- A bound identifier names an existing vertex. -/
  bound : ∀ id v, (op.run g).2.lookup id = some v → v < (op.run g).2.numVertices
  /-- Different identifiers name different vertices. -/
  inj : ∀ id id' v, (op.run g).2.lookup id = some v → (op.run g).2.lookup id' = some v → id = id'
  /-- `add_vertex(id)` returns what it returned before. -/
  again : ∀ id v, op = .addVertexId id → (op, v) ∈ calls → (op.run g).1 = v
  /-- Else it returns a vertex that no earlier `add_vertex` has returned. -/
  fresh : ∀ id, op = .addVertexId id → (∀ v, (op, v) ∉ calls) →
    ∀ op' v, (op', v) ∈ calls → (∀ id', op' ≠ .atId id') → (op.run g).1 ≠ v
  /-- No identifier changes its vertex. -/
  frame : ∀ id v, g.lookup id = some v → (op.run g).2.lookup id = some v

/-- Every call of the sequence does what the identifier map promises. -/
def HistoryOk (n : ℕ) (ops : List GraphOp) : Prop :=
  ∀ pre op post, ops = pre ++ op :: post → StepOk (history n pre).1 (history n pre).2 op

/-- `operator[]` is called only for identifiers that `add_vertex` has bound before. -/
def LooksUpBound (ops : List GraphOp) : Prop :=
  ∀ pre id post, ops = pre ++ .atId id :: post → .addVertexId id ∈ pre

/-! ### One call -/

lemma atId_of_some {g : Graph n} {id : Identifier} {v : VertexT} (h : g.lookup id = some v) :
    g.atId id = (v, g) := by
  rw [Graph.atId, h]

/-- **No call changes the vertex an identifier is bound to**, whatever the call. -/
lemma run_lookup (op : GraphOp) {g : Graph n} {id : Identifier} {v : VertexT}
    (h : g.lookup id = some v) : (op.run g).2.lookup id = some v := by
  cases op with
  | addVertex => exact h
  | addVertexId id' =>
      by_cases hid : id = id'
      · subst hid
        rw [GraphOp.run, Graph.addVertexId_of_some h, h]
      · rw [GraphOp.run, Graph.addVertexId_lookup_of_ne hid, h]
  | atId id' =>
      cases h' : g.lookup id' with
      | some v' => rw [GraphOp.run, atId_of_some h', h]
      | none =>
          have hid : id ≠ id' := by rintro rfl; rw [h] at h'; exact absurd h' (by simp)
          rw [GraphOp.run, Graph.atId, h']
          exact (AList.lookup_insert_ne hid).trans h

/-- The identifier map after the calls `calls`. -/
structure IdentifiersOk (g : Graph n) (calls : List (GraphOp × VertexT)) : Prop where
  /-- Identifiers are bound to what `add_vertex` returned for them. -/
  lookup_iff : ∀ id v, g.lookup id = some v ↔ (.addVertexId id, v) ∈ calls
  /-- Different identifiers are bound to different vertices. -/
  inj : ∀ id id' v, g.lookup id = some v → g.lookup id' = some v → id = id'
  /-- The vertices met so far exist. -/
  lt : ∀ op v, (op, v) ∈ calls → v < g.numVertices
  /-- The existing vertices were returned by `add_vertex`. -/
  created : ∀ v < g.numVertices, ∃ op, (op, v) ∈ calls ∧ ∀ id, op ≠ .atId id

namespace IdentifiersOk

variable {g : Graph n} {calls : List (GraphOp × VertexT)}

lemma empty : IdentifiersOk ({} : Graph n) [] where
  lookup_iff := by simp [Graph.lookup]
  inj := by simp [Graph.lookup]
  lt := by simp
  created := by simp [Graph.numVertices]

lemma lookup_lt (h : IdentifiersOk g calls) {id : Identifier} {v : VertexT}
    (hid : g.lookup id = some v) : v < g.numVertices :=
  h.lt _ _ ((h.lookup_iff id v).mp hid)

/-- A call that returns an existing vertex and leaves the graph alone. -/
lemma step_of_same (h : IdentifiersOk g calls) {op : GraphOp} {v : VertexT}
    (hv : v < g.numVertices) (hop : ∀ id, op = .addVertexId id → g.lookup id = some v) :
    IdentifiersOk g (calls ++ [(op, v)]) where
  lookup_iff id v' := by
    rw [List.mem_append, List.mem_singleton, h.lookup_iff]
    refine ⟨Or.inl, fun hmem => hmem.elim (fun hin => hin) fun heq => ?_⟩
    obtain ⟨hop', rfl⟩ := Prod.mk.inj heq
    exact (h.lookup_iff id v').mp (hop id hop'.symm)
  inj := h.inj
  lt op' v' hmem := by
    rcases List.mem_append.mp hmem with hmem | hmem
    · exact h.lt op' v' hmem
    · obtain ⟨-, rfl⟩ := Prod.mk.inj (List.mem_singleton.mp hmem)
      exact hv
  created v' hv' := by
    obtain ⟨op', hmem, hop'⟩ := h.created v' hv'
    exact ⟨op', List.mem_append_left _ hmem, hop'⟩

/-- `add_vertex()` keeps the invariant. -/
lemma step_addVertex (h : IdentifiersOk g calls) :
    IdentifiersOk g.addVertex.2 (calls ++ [(.addVertex, g.addVertex.1)]) where
  lookup_iff id v := by
    rw [Graph.addVertex_lookup, h.lookup_iff]
    simp
  inj := h.inj
  lt op v hmem := by
    rw [Graph.addVertex_numVertices]
    rcases List.mem_append.mp hmem with hmem | hmem
    · exact Nat.lt_succ_of_lt (h.lt op v hmem)
    · obtain ⟨-, rfl⟩ := Prod.mk.inj (List.mem_singleton.mp hmem)
      exact Nat.lt_succ_self _
  created v hv := by
    rw [Graph.addVertex_numVertices] at hv
    rcases Nat.lt_succ_iff_lt_or_eq.mp hv with hv | rfl
    · obtain ⟨op, hmem, hop⟩ := h.created v hv
      exact ⟨op, List.mem_append_left _ hmem, hop⟩
    · exact ⟨.addVertex, List.mem_append_right _ (List.mem_singleton.mpr rfl), by simp⟩

/-- `add_vertex(id)` of an unbound identifier keeps the invariant. -/
lemma step_addVertexId (h : IdentifiersOk g calls) {id : Identifier} (hid : g.lookup id = none) :
    IdentifiersOk (g.addVertexId id).2 (calls ++ [(.addVertexId id, g.numVertices)]) := by
  have hself := Graph.addVertexId_lookup_self g id
  rw [show (g.addVertexId id).1 = g.numVertices by rw [Graph.addVertexId_of_none hid]] at hself
  have hnum : (g.addVertexId id).2.numVertices = g.numVertices + 1 := by
    rw [Graph.addVertexId_of_none hid]
    exact Graph.addVertex_numVertices g
  have hnot : ∀ v, (.addVertexId id, v) ∉ calls := fun v hmem => by
    rw [(h.lookup_iff id v).mpr hmem] at hid
    exact absurd hid (by simp)
  refine ⟨fun id' v => ?_, fun id₁ id₂ v h₁ h₂ => ?_, fun op v hmem => ?_, fun v hv => ?_⟩
  · by_cases hid' : id' = id
    · subst hid'
      rw [hself, Option.some.injEq]
      simp [hnot, eq_comm]
    · rw [Graph.addVertexId_lookup_of_ne hid', h.lookup_iff]
      simp [hid']
  · by_cases hid₁ : id₁ = id <;> by_cases hid₂ : id₂ = id
    · rw [hid₁, hid₂]
    · subst hid₁
      rw [hself, Option.some.injEq] at h₁
      rw [Graph.addVertexId_lookup_of_ne hid₂] at h₂
      exact absurd (h₁ ▸ h.lookup_lt h₂) (lt_irrefl _)
    · subst hid₂
      rw [hself, Option.some.injEq] at h₂
      rw [Graph.addVertexId_lookup_of_ne hid₁] at h₁
      exact absurd (h₂ ▸ h.lookup_lt h₁) (lt_irrefl _)
    · rw [Graph.addVertexId_lookup_of_ne hid₁] at h₁
      rw [Graph.addVertexId_lookup_of_ne hid₂] at h₂
      exact h.inj id₁ id₂ v h₁ h₂
  · rw [hnum]
    rcases List.mem_append.mp hmem with hmem | hmem
    · exact Nat.lt_succ_of_lt (h.lt op v hmem)
    · obtain ⟨-, rfl⟩ := Prod.mk.inj (List.mem_singleton.mp hmem)
      exact Nat.lt_succ_self _
  · rw [hnum] at hv
    rcases Nat.lt_succ_iff_lt_or_eq.mp hv with hv | rfl
    · obtain ⟨op, hmem, hop⟩ := h.created v hv
      exact ⟨op, List.mem_append_left _ hmem, hop⟩
    · exact ⟨.addVertexId id, List.mem_append_right _ (List.mem_singleton.mpr rfl), by simp⟩

/-- **A call keeps the invariant**, `operator[]` provided its identifier is bound. -/
theorem step (h : IdentifiersOk g calls) {op : GraphOp}
    (hop : ∀ id, op = .atId id → ∃ v, g.lookup id = some v) :
    IdentifiersOk (op.run g).2 (calls ++ [(op, (op.run g).1)]) := by
  cases op with
  | addVertex => exact h.step_addVertex
  | addVertexId id =>
      cases hid : g.lookup id with
      | some v =>
          rw [GraphOp.run, Graph.addVertexId_of_some hid]
          exact h.step_of_same (h.lookup_lt hid) fun id' heq => by
            obtain rfl := GraphOp.addVertexId.inj heq
            exact hid
      | none =>
          have hstep := h.step_addVertexId hid
          rw [GraphOp.run]
          rw [show (g.addVertexId id).1 = g.numVertices by rw [Graph.addVertexId_of_none hid]]
          exact hstep
  | atId id =>
      obtain ⟨v, hv⟩ := hop id rfl
      rw [GraphOp.run, atId_of_some hv]
      exact h.step_of_same (h.lookup_lt hv) (by simp)

/-- Under the invariant a call does what the identifier map promises. -/
theorem stepOk (h : IdentifiersOk g calls) {op : GraphOp}
    (hop : ∀ id, op = .atId id → ∃ v, g.lookup id = some v) : StepOk g calls op := by
  have hnext := h.step hop
  have hlast : (op, (op.run g).1) ∈ calls ++ [(op, (op.run g).1)] :=
    List.mem_append_right _ (List.mem_singleton.mpr rfl)
  refine ⟨hnext.lt _ _ hlast, fun id v hid => hnext.lookup_lt hid, hnext.inj, ?_, ?_,
    fun id v hid => run_lookup op hid⟩
  · rintro id v rfl hmem
    have hid := (h.lookup_iff id v).mpr hmem
    rw [GraphOp.run, Graph.addVertexId_of_some hid]
  · rintro id rfl hnot op' v hmem -
    have hid : g.lookup id = none := by
      cases hid : g.lookup id with
      | none => rfl
      | some v' => exact absurd ((h.lookup_iff id v').mp hid) (hnot v')
    have hlt := h.lt op' v hmem
    rw [GraphOp.run, Graph.addVertexId_of_none hid]
    exact Nat.ne_of_gt hlt

end IdentifiersOk

/-! ### Sequences of calls -/

/-- The calls recorded are the calls made. -/
lemma history_calls (ops : List GraphOp) : (history n ops).2.map Prod.fst = ops := by
  induction ops using List.reverseRecOn with
  | nil => rfl
  | append_singleton ops op ih => rw [history_append_singleton]; simp [ih]

lemma LooksUpBound.of_append {ops ops' : List GraphOp} (h : LooksUpBound (ops ++ ops')) :
    LooksUpBound ops := by
  intro pre id post heq
  exact h pre id (post ++ ops') (by rw [heq]; simp)

/-- **The invariant holds along every sequence that looks up bound identifiers only.** -/
theorem identifiersOk_history {ops : List GraphOp} (h : LooksUpBound ops) :
    IdentifiersOk (history n ops).1 (history n ops).2 := by
  induction ops using List.reverseRecOn with
  | nil => exact IdentifiersOk.empty
  | append_singleton ops op ih =>
      have hops := ih h.of_append
      rw [history_append_singleton]
      refine hops.step fun id hid => ?_
      have hmem : .addVertexId id ∈ ops := h ops id [] (by rw [hid])
      rw [← history_calls (n := n) ops] at hmem
      obtain ⟨⟨op', v⟩, hv, rfl⟩ := List.mem_map.mp hmem
      exact ⟨v, (hops.lookup_iff id v).mpr hv⟩

/-- What is bound stays bound under further calls. -/
lemma history_lookup_append {ops : List GraphOp} {id : Identifier} {v : VertexT}
    (h : (history n ops).1.lookup id = some v) (ops' : List GraphOp) :
    (history n (ops ++ ops')).1.lookup id = some v := by
  induction ops' using List.reverseRecOn with
  | nil => rwa [List.append_nil]
  | append_singleton ops' op ih =>
      rw [← List.append_assoc, history_append_singleton]
      exact run_lookup op ih

lemma history_calls_append (ops ops' : List GraphOp) :
    ∃ calls, (history n (ops ++ ops')).2 = (history n ops).2 ++ calls := by
  induction ops' using List.reverseRecOn with
  | nil => exact ⟨[], by simp⟩
  | append_singleton ops' op ih =>
      obtain ⟨calls, hcalls⟩ := ih
      rw [← List.append_assoc, history_append_singleton, hcalls]
      exact ⟨_, List.append_assoc _ _ _⟩

/-- A sequence that looks up an unbound identifier has a first such lookup. -/
lemma exists_first_unbound {ops : List GraphOp} (h : ¬ LooksUpBound ops) :
    ∃ pre id post, ops = pre ++ .atId id :: post ∧ LooksUpBound pre ∧ .addVertexId id ∉ pre := by
  induction ops using List.reverseRecOn with
  | nil => exact absurd (by intro pre id post heq; simp at heq) h
  | append_singleton ops op ih =>
      by_cases hops : LooksUpBound ops
      · rw [LooksUpBound] at h
        push Not at h
        obtain ⟨pre, id, post, heq, hnot⟩ := h
        rcases List.eq_nil_or_concat post with rfl | ⟨post', last, rfl⟩
        · obtain ⟨rfl, -⟩ := List.append_inj' heq rfl
          exact ⟨ops, id, [], heq, hops, hnot⟩
        · refine absurd (hops pre id post' ?_) hnot
          rw [List.concat_eq_append, ← List.cons_append, ← List.append_assoc] at heq
          exact (List.append_inj' heq rfl).1
      · obtain ⟨pre, id, post, rfl, hpre, hnot⟩ := ih hops
        exact ⟨pre, id, post ++ [op], by simp, hpre, hnot⟩

/-- After a lookup of an unbound identifier, adding the identifier returns a
vertex that was created for something else. -/
lemma not_historyOk_of_unbound {pre post : List GraphOp} {id : Identifier}
    (hpre : LooksUpBound pre) (hnot : .addVertexId id ∉ pre) :
    ¬ HistoryOk n (pre ++ .atId id :: post ++ [.addVertexId id]) := by
  intro hok
  have hinv := identifiersOk_history (n := n) hpre
  have hunbound : (history n pre).1.lookup id = none := by
    cases hid : (history n pre).1.lookup id with
    | none => rfl
    | some v =>
        refine absurd ?_ hnot
        rw [← history_calls (n := n) pre]
        exact List.mem_map.mpr ⟨_, (hinv.lookup_iff id v).mp hid, rfl⟩
  have hat : (history n pre).1.atId id = (0, { (history n pre).1 with
      mIdentifierMap := (history n pre).1.mIdentifierMap.insert id 0 }) := by
    rw [Graph.atId, hunbound]
  -- the lookup binds `id` to vertex 0, which must exist to be accessed
  have hlookup : (history n (pre ++ [.atId id])).1.lookup id = some 0 := by
    rw [history_append_singleton, GraphOp.run, hat]
    exact AList.lookup_insert _
  have hzero : 0 < (history n pre).1.numVertices := by
    have := (hok pre (.atId id) (post ++ [.addVertexId id]) (by simp)).inRange
    rwa [GraphOp.run, hat] at this
  obtain ⟨op, hop, hopAt⟩ := hinv.created 0 hzero
  -- the first `add_vertex(id)` after the lookup returns vertex 0 again
  obtain ⟨mid, rest, hsplit, hmid⟩ := List.eq_append_cons_of_mem
    (show GraphOp.addVertexId id ∈ post ++ [.addVertexId id] by simp)
  have hstep := hok (pre ++ [.atId id] ++ mid) (.addVertexId id) rest (by
    rw [List.append_assoc pre, List.append_assoc, List.cons_append, hsplit]; simp)
  have hbound := history_lookup_append hlookup mid
  obtain ⟨calls, hcalls⟩ := history_calls_append (n := n) pre ([.atId id] ++ mid)
  rw [← List.append_assoc] at hcalls
  refine hstep.fresh id rfl (fun v hv => ?_) op 0 ?_ hopAt ?_
  · have hmem := List.mem_map_of_mem (f := Prod.fst) hv
    rw [history_calls] at hmem
    simp only [List.mem_append, List.mem_singleton, reduceCtorEq, or_false] at hmem
    exact hmem.elim hnot hmid
  · rw [hcalls]
    exact List.mem_append_left _ hop
  · rw [GraphOp.run, Graph.addVertexId_of_some hbound]

/-- **The identifier map does what it promises exactly when only bound
identifiers are looked up**: along every such sequence, however it is continued
by `add_vertex(id)` calls, and along no sequence that looks up an unbound
identifier and is continued so. -/
theorem historyOk_iff (n : ℕ) (ops : List GraphOp) :
    LooksUpBound ops ↔
      ∀ ids : List Identifier, HistoryOk n (ops ++ ids.map GraphOp.addVertexId) := by
  constructor
  · intro h ids pre op post heq
    have hall : LooksUpBound (ops ++ ids.map GraphOp.addVertexId) := by
      intro pre' id post' heq'
      rcases List.append_eq_append_iff.mp heq' with ⟨as, rfl, has⟩ | ⟨bs, rfl, hbs⟩
      · have hmem : GraphOp.atId id ∈ ids.map GraphOp.addVertexId := by rw [has]; simp
        exact absurd hmem (by simp)
      · cases bs with
        | nil =>
            have hmem : GraphOp.atId id ∈ ids.map GraphOp.addVertexId := by
              rw [List.nil_append] at hbs
              rw [← hbs]
              simp
            exact absurd hmem (by simp)
        | cons b bs =>
            rw [List.cons_append, List.cons.injEq] at hbs
            obtain ⟨rfl, -⟩ := hbs
            exact h pre' id bs rfl
    rw [heq] at hall
    have hinv := identifiersOk_history (n := n) hall.of_append
    refine hinv.stepOk fun id hid => ?_
    have hmem : .addVertexId id ∈ pre := hall pre id post (by rw [hid])
    rw [← history_calls (n := n) pre] at hmem
    obtain ⟨⟨op', v⟩, hv, rfl⟩ := List.mem_map.mp hmem
    exact ⟨v, (hinv.lookup_iff id v).mpr hv⟩
  · intro h
    by_contra hnot
    obtain ⟨pre, id, post, rfl, hpre, hid⟩ := exists_first_unbound hnot
    exact not_historyOk_of_unbound hpre hid (h [id])

/-- A graph with the one vertex `"a"`, looked up by the identifier `"b"`: both
identifiers then name vertex 0. -/
theorem not_historyOk_lookup_unbound :
    ¬ ∀ ops : List GraphOp, HistoryOk 1 ops := by
  intro h
  have hinj := (h [.addVertexId "a", .atId "b"] [.addVertexId "a"] (.atId "b") [] rfl).inj
  have hab := hinj "a" "b" 0 (by decide) (by decide)
  exact absurd hab (by decide)

end Yloc
