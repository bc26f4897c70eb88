import Mathlib.Tactic
import Mathlib.Data.List.Nodup
import Mathlib.Data.Set.Function
import Yloc.Lib.Acyclic

/-!
Keyed multigraphs and the numbered multigraphs that represent them.

A program stores a multigraph under consecutive vertex numbers; what it is
about is a multigraph on keys. `Keyed κ V ε` is the latter: at most one value
for each key and a list of labelled arcs between keys. `Numbers φ vs es T`
says that the vertex list `vs` with the arc list `es` is the keyed multigraph
`T` with the key `k` placed at the number `φ k`.

* `Keyed.touch`, `Keyed.update`, `Keyed.connect`: the three changes of a keyed
  multigraph, and `Numbers.new`, `Numbers.update`, `Numbers.connect`, the same
  changes of a representation.
* `Numbers.step_iff`, `Numbers.reach_iff`, `Numbers.acyclic`,
  `Numbers.nodup_targets`, `Numbers.mirrored`: what is known of the arcs on
  keys is known of the arcs on numbers.
* `Numbers.length_eq`: how many numbers a later representation has more.
* `Numbers.exists_iso`: two representations of equivalent keyed multigraphs are
  isomorphic, by the map that follows the keys.
-/

open Relation

/-- A labelled arc of a directed multigraph. -/
structure Arc (κ ε : Type) where
  source : κ
  target : κ
  label : ε
  deriving DecidableEq, Repr

namespace Arc

variable {κ κ' ε : Type}

/-- The arc with its ends renamed. -/
def map (f : κ → κ') (a : Arc κ ε) : Arc κ' ε := ⟨f a.source, f a.target, a.label⟩

@[simp] lemma map_source (f : κ → κ') (a : Arc κ ε) : (a.map f).source = f a.source := rfl

@[simp] lemma map_target (f : κ → κ') (a : Arc κ ε) : (a.map f).target = f a.target := rfl

@[simp] lemma map_label (f : κ → κ') (a : Arc κ ε) : (a.map f).label = a.label := rfl

/-- There is an arc labelled `l` from `u` to `v`. -/
def Step (l : ε) (as : List (Arc κ ε)) (u v : κ) : Prop := ⟨u, v, l⟩ ∈ as

variable [DecidableEq ε]

/-- The targets of the arcs labelled `l`, with multiplicity. -/
def targets (l : ε) (as : List (Arc κ ε)) : List κ :=
  (as.filter fun a => a.label = l).map Arc.target

/-- The ends of the arcs labelled `l`, with multiplicity. -/
def ends (l : ε) (as : List (Arc κ ε)) : List (κ × κ) :=
  (as.filter fun a => a.label = l).map fun a => (a.source, a.target)

/-- The arcs labelled `l`, turned round, are the arcs labelled `l'`. -/
def Mirrored (l l' : ε) (as : List (Arc κ ε)) : Prop :=
  ((ends l as).map Prod.swap).Perm (ends l' as)

@[simp] lemma targets_nil (l : ε) : targets l ([] : List (Arc κ ε)) = [] := rfl

@[simp] lemma ends_nil (l : ε) : ends l ([] : List (Arc κ ε)) = [] := rfl

@[simp] lemma targets_append (l : ε) (as bs : List (Arc κ ε)) :
    targets l (as ++ bs) = targets l as ++ targets l bs := by
  simp [targets]

@[simp] lemma ends_append (l : ε) (as bs : List (Arc κ ε)) :
    ends l (as ++ bs) = ends l as ++ ends l bs := by
  simp [ends]

lemma mem_targets {l : ε} {as : List (Arc κ ε)} {v : κ} :
    v ∈ targets l as ↔ ∃ u, Step l as u v := by
  constructor
  · intro h
    obtain ⟨⟨u, w, l'⟩, ha, rfl⟩ := List.mem_map.mp h
    simp only [List.mem_filter, decide_eq_true_eq] at ha
    obtain ⟨ha, rfl⟩ := ha
    exact ⟨u, ha⟩
  · rintro ⟨u, hu⟩
    exact List.mem_map.mpr ⟨_, List.mem_filter.mpr ⟨hu, by simp⟩, rfl⟩

/-- Arcs with different targets each have one source for a target. -/
lemma source_unique {l : ε} {as : List (Arc κ ε)} (h : (targets l as).Nodup) {u u' v : κ}
    (hu : Step l as u v) (hu' : Step l as u' v) : u = u' := by
  have hmem : ∀ {w : κ}, Step l as w v → ⟨w, v, l⟩ ∈ as.filter fun a => a.label = l := fun hw =>
    List.mem_filter.mpr ⟨hw, by simp⟩
  have heq := List.inj_on_of_nodup_map h (hmem hu) (hmem hu') rfl
  exact (Arc.mk.inj heq).1

lemma mem_ends {l : ε} {as : List (Arc κ ε)} {u v : κ} :
    (u, v) ∈ ends l as ↔ Step l as u v := by
  constructor
  · intro h
    obtain ⟨⟨u', v', l'⟩, ha, heq⟩ := List.mem_map.mp h
    simp only [List.mem_filter, decide_eq_true_eq] at ha
    obtain ⟨ha, rfl⟩ := ha
    obtain ⟨rfl, rfl⟩ := Prod.mk.inj heq
    exact ha
  · intro h
    exact List.mem_map.mpr ⟨_, List.mem_filter.mpr ⟨h, by simp⟩, rfl⟩

lemma Mirrored.step_iff {l l' : ε} {as : List (Arc κ ε)} (h : Mirrored l l' as) {u v : κ} :
    Step l as u v ↔ Step l' as v u := by
  rw [← mem_ends, ← mem_ends, ← h.mem_iff, List.mem_map]
  constructor
  · exact fun huv => ⟨(u, v), huv, rfl⟩
  · rintro ⟨⟨a, b⟩, hab, heq⟩
    obtain ⟨rfl, rfl⟩ := Prod.mk.inj heq
    exact hab

lemma targets_map (f : κ → κ') (l : ε) (as : List (Arc κ ε)) :
    targets l (as.map (Arc.map f)) = (targets l as).map f := by
  rw [targets, targets, List.filter_map, List.map_map, List.map_map]
  rfl

lemma ends_map (f : κ → κ') (l : ε) (as : List (Arc κ ε)) :
    ends l (as.map (Arc.map f)) = (ends l as).map (Prod.map f f) := by
  rw [ends, ends, List.filter_map, List.map_map, List.map_map]
  rfl

end Arc

/-- A multigraph on keys: at most one value for each key, and labelled arcs
between keys. -/
structure Keyed (κ V ε : Type) where
  info : κ → Option V
  arcs : List (Arc κ ε)

namespace Keyed

variable {κ V ε : Type}

/-- The keyed multigraph with no key. -/
def empty : Keyed κ V ε := ⟨fun _ => none, []⟩

/-- The arc `a` is added last. -/
def connect (a : Arc κ ε) (T : Keyed κ V ε) : Keyed κ V ε :=
  { T with arcs := T.arcs ++ [a] }

@[simp] lemma connect_arcs (a : Arc κ ε) (T : Keyed κ V ε) :
    (T.connect a).arcs = T.arcs ++ [a] := rfl

@[simp] lemma connect_info (a : Arc κ ε) (T : Keyed κ V ε) : (T.connect a).info = T.info := rfl

variable [DecidableEq κ]

/-- The key `k` is present afterwards, with the value `v₀` if it was absent. -/
def touch (k : κ) (v₀ : V) (T : Keyed κ V ε) : Keyed κ V ε :=
  { T with info := Function.update T.info k (some ((T.info k).getD v₀)) }

/-- The value at `k` is changed by `f`. -/
def update (k : κ) (f : V → V) (T : Keyed κ V ε) : Keyed κ V ε :=
  { T with info := Function.update T.info k ((T.info k).map f) }

@[simp] lemma touch_arcs (k : κ) (v₀ : V) (T : Keyed κ V ε) : (T.touch k v₀).arcs = T.arcs := rfl

@[simp] lemma update_arcs (k : κ) (f : V → V) (T : Keyed κ V ε) :
    (T.update k f).arcs = T.arcs := rfl

@[simp] lemma touch_info_self (k : κ) (v₀ : V) (T : Keyed κ V ε) :
    (T.touch k v₀).info k = some ((T.info k).getD v₀) := by
  simp [touch]

@[simp] lemma update_info_self (k : κ) (f : V → V) (T : Keyed κ V ε) :
    (T.update k f).info k = (T.info k).map f := by
  simp [update]

lemma touch_info_of_ne {k k' : κ} (h : k' ≠ k) (v₀ : V) (T : Keyed κ V ε) :
    (T.touch k v₀).info k' = T.info k' := by
  simp [touch, h]

lemma update_info_of_ne {k k' : κ} (h : k' ≠ k) (f : V → V) (T : Keyed κ V ε) :
    (T.update k f).info k' = T.info k' := by
  simp [update, h]

/-- Touching a key that is present changes nothing. -/
lemma touch_eq_self {k : κ} {v : V} (v₀ : V) {T : Keyed κ V ε} (h : T.info k = some v) :
    T.touch k v₀ = T := by
  have hinfo : Function.update T.info k (some ((T.info k).getD v₀)) = T.info := by
    rw [h, Option.getD_some, ← h, Function.update_eq_self]
  rw [touch, hinfo]

end Keyed

/-! ### Representation by numbers -/

/-- The placement `φ'` places every key that `φ` places, at the same number. -/
def Extends {κ : Type} (φ φ' : κ → Option ℕ) : Prop := ∀ k v, φ k = some v → φ' k = some v

namespace Extends

variable {κ : Type} {φ φ' φ'' : κ → Option ℕ}

lemma refl (φ : κ → Option ℕ) : Extends φ φ := fun _ _ h => h

lemma trans (h : Extends φ φ') (h' : Extends φ' φ'') : Extends φ φ'' :=
  fun k v hk => h' k v (h k v hk)

lemma update [DecidableEq κ] {k : κ} (hk : φ k = none) (v : ℕ) :
    Extends φ (Function.update φ k (some v)) := by
  intro k' v' h'
  have hne : k' ≠ k := by rintro rfl; rw [hk] at h'; exact absurd h' (by simp)
  rw [Function.update_of_ne hne]
  exact h'

end Extends

/-- The number of a placed key. -/
def place {κ : Type} (φ : κ → Option ℕ) (k : κ) : ℕ := (φ k).getD 0

lemma place_eq {κ : Type} {φ : κ → Option ℕ} {k : κ} {v : ℕ} (h : φ k = some v) :
    place φ k = v := by
  rw [place, h, Option.getD_some]

/-- The numbered multigraph `(vs, es)` is the keyed multigraph `T` with the key
`k` at the number `φ k`. -/
structure Numbers {κ V ε : Type} (φ : κ → Option ℕ) (vs : List V) (es : List (Arc ℕ ε))
    (T : Keyed κ V ε) : Prop where
  /-- Keys are placed at existing numbers. -/
  lt : ∀ k v, φ k = some v → v < vs.length
  /-- No number carries two keys. -/
  inj : ∀ k k' v, φ k = some v → φ k' = some v → k = k'
  /-- Every number carries a key. -/
  surj : ∀ v < vs.length, ∃ k, φ k = some v
  /-- The value at a key is the value at its number. -/
  info : ∀ k, T.info k = (φ k).bind (vs[·]?)
  /-- The ends of an arc are placed. -/
  ends : ∀ a ∈ T.arcs, (∃ u, φ a.source = some u) ∧ ∃ v, φ a.target = some v
  /-- The arcs are the same, in the same order. -/
  arcs : es = T.arcs.map (Arc.map (place φ))

namespace Numbers

variable {κ V ε : Type} {φ φ' : κ → Option ℕ} {vs : List V} {es : List (Arc ℕ ε)}
  {T : Keyed κ V ε}

/-- The empty keyed multigraph is represented by the empty lists. -/
lemma empty : Numbers (fun _ => none) ([] : List V) ([] : List (Arc ℕ ε))
    (Keyed.empty : Keyed κ V ε) where
  lt := by simp
  inj := by simp
  surj := by simp
  info := by simp [Keyed.empty]
  ends := by simp [Keyed.empty]
  arcs := by simp [Keyed.empty]

/-- A placed key has a value. -/
lemma info_some (h : Numbers φ vs es T) {k : κ} {v : ℕ} (hk : φ k = some v) :
    ∃ x, vs[v]? = some x ∧ T.info k = some x := by
  have hlt := h.lt k v hk
  refine ⟨vs[v], by simp [hlt], ?_⟩
  rw [h.info, hk, Option.bind_some, List.getElem?_eq_getElem hlt]

/-- A key with a value is placed. -/
lemma placed (h : Numbers φ vs es T) {k : κ} {x : V} (hk : T.info k = some x) :
    ∃ v, φ k = some v ∧ vs[v]? = some x := by
  rw [h.info] at hk
  exact Option.bind_eq_some_iff.mp hk

lemma info_eq_none_iff (h : Numbers φ vs es T) {k : κ} : T.info k = none ↔ φ k = none := by
  cases hφ : φ k with
  | none => simp [h.info, hφ]
  | some v =>
      obtain ⟨x, _, hx⟩ := h.info_some hφ
      simp [hx]

/-- The arcs read off with a later placement are the same. -/
lemma map_place (h : Numbers φ vs es T) (hext : Extends φ φ') :
    es = T.arcs.map (Arc.map (place φ')) := by
  rw [h.arcs]
  refine List.map_congr_left fun a ha => ?_
  obtain ⟨⟨u, hu⟩, v, hv⟩ := h.ends a ha
  simp only [Arc.map, place_eq hu, place_eq hv, place_eq (hext _ _ hu), place_eq (hext _ _ hv)]

/-- An arc is added between two placed keys. -/
theorem connect (h : Numbers φ vs es T) {a : Arc κ ε} {u v : ℕ} (hu : φ a.source = some u)
    (hv : φ a.target = some v) : Numbers φ vs (es ++ [⟨u, v, a.label⟩]) (T.connect a) := by
  refine ⟨h.lt, h.inj, h.surj, h.info, fun b hb => ?_, ?_⟩
  · rcases List.mem_append.mp hb with hb | hb
    · exact h.ends b hb
    · rw [List.mem_singleton.mp hb]
      exact ⟨⟨u, hu⟩, v, hv⟩
  · rw [h.arcs, Keyed.connect_arcs, List.map_append]
    simp [Arc.map, place_eq hu, place_eq hv]

/-! ### What is known of the keyed arcs is known of the numbered ones -/

/-- Every numbered arc comes from a keyed one. -/
lemma exists_of_step (h : Numbers φ vs es T) {l : ε} {u v : ℕ} (huv : Arc.Step l es u v) :
    ∃ k k', φ k = some u ∧ φ k' = some v ∧ Arc.Step l T.arcs k k' := by
  rw [Arc.Step, h.arcs] at huv
  obtain ⟨a, ha, heq⟩ := List.mem_map.mp huv
  obtain ⟨⟨u', hu⟩, v', hv⟩ := h.ends a ha
  obtain ⟨k, k', l'⟩ := a
  simp only [Arc.map, place_eq hu, place_eq hv, Arc.mk.injEq] at heq
  obtain ⟨rfl, rfl, rfl⟩ := heq
  exact ⟨k, k', hu, hv, ha⟩

lemma step_iff (h : Numbers φ vs es T) {l : ε} {k k' : κ} {u v : ℕ} (hu : φ k = some u)
    (hv : φ k' = some v) : Arc.Step l es u v ↔ Arc.Step l T.arcs k k' := by
  constructor
  · intro huv
    obtain ⟨k₁, k₂, h₁, h₂, hs⟩ := h.exists_of_step huv
    rwa [h.inj k k₁ u hu h₁, h.inj k' k₂ v hv h₂]
  · intro hs
    rw [Arc.Step, h.arcs]
    refine List.mem_map.mpr ⟨_, hs, ?_⟩
    simp [Arc.map, place_eq hu, place_eq hv]

/-- A path of numbered arcs from the place of a key follows a path of keyed
arcs. -/
lemma exists_reach (h : Numbers φ vs es T) {l : ε} {k : κ} {u v : ℕ} (hu : φ k = some u)
    (huv : ReflTransGen (Arc.Step l es) u v) :
    ∃ k', φ k' = some v ∧ ReflTransGen (Arc.Step l T.arcs) k k' := by
  induction huv with
  | refl => exact ⟨k, hu, .refl⟩
  | tail _ hvw ih =>
      obtain ⟨k', hk', hreach⟩ := ih
      obtain ⟨k₁, k₂, h₁, h₂, hs⟩ := h.exists_of_step hvw
      obtain rfl := h.inj k' k₁ _ hk' h₁
      exact ⟨k₂, h₂, hreach.tail hs⟩

theorem reach_iff (h : Numbers φ vs es T) {l : ε} {k k' : κ} {u v : ℕ} (hu : φ k = some u)
    (hv : φ k' = some v) :
    ReflTransGen (Arc.Step l es) u v ↔ ReflTransGen (Arc.Step l T.arcs) k k' := by
  constructor
  · intro huv
    obtain ⟨k₂, hk₂, hreach⟩ := h.exists_reach hu huv
    rwa [h.inj k' k₂ v hv hk₂]
  · intro hreach
    induction hreach generalizing v with
    | refl =>
        rw [hu, Option.some.injEq] at hv
        subst hv
        exact .refl
    | @tail m m' _ hmm ih =>
        obtain ⟨⟨w, hw⟩, -⟩ := h.ends _ hmm
        exact (ih hw).tail ((h.step_iff hw hv).mpr hmm)

theorem acyclic (h : Numbers φ vs es T) {l : ε} (hT : Acyclic (Arc.Step l T.arcs)) :
    Acyclic (Arc.Step l es) := by
  refine Acyclic.of_lift (fun v k => φ k = some v) hT (fun u v huv => ?_)
    fun v k k' hk hk' => h.inj k k' v hk hk'
  obtain ⟨k, k', hk, hk', hs⟩ := h.exists_of_step huv
  exact ⟨k, k', hk, hk', hs⟩

/-- Arcs end below the number of vertices. -/
lemma step_lt (h : Numbers φ vs es T) {l : ε} {u v : ℕ} (huv : Arc.Step l es u v) :
    u < vs.length ∧ v < vs.length := by
  obtain ⟨k, k', hk, hk', -⟩ := h.exists_of_step huv
  exact ⟨h.lt k u hk, h.lt k' v hk'⟩

theorem nodup_targets [DecidableEq ε] (h : Numbers φ vs es T) {l : ε}
    (hT : (Arc.targets l T.arcs).Nodup) : (Arc.targets l es).Nodup := by
  rw [h.arcs, Arc.targets_map]
  refine hT.map_on fun k hk k' hk' heq => ?_
  obtain ⟨m, hm⟩ := Arc.mem_targets.mp hk
  obtain ⟨m', hm'⟩ := Arc.mem_targets.mp hk'
  obtain ⟨-, v, hv⟩ := h.ends _ hm
  obtain ⟨-, v', hv'⟩ := h.ends _ hm'
  rw [place_eq hv, place_eq hv'] at heq
  subst heq
  exact h.inj k k' v hv hv'

theorem mirrored [DecidableEq ε] (h : Numbers φ vs es T) {l l' : ε}
    (hT : Arc.Mirrored l l' T.arcs) : Arc.Mirrored l l' es := by
  have hmap := List.Perm.map (Prod.map (place φ) (place φ)) hT
  rw [Arc.Mirrored, h.arcs, Arc.ends_map, Arc.ends_map, List.map_map]
  rwa [List.map_map] at hmap

section Later

variable {vs' : List V} {es' : List (Arc ℕ ε)} {T' : Keyed κ V ε} (h : Numbers φ vs es T)
  (h' : Numbers φ' vs' es' T') (hext : Extends φ φ')

include h h' hext

/-- A later representation has no fewer numbers. -/
lemma length_le : vs.length ≤ vs'.length := by
  by_contra hlt
  obtain ⟨k, hk⟩ := h.surj vs'.length (not_le.mp hlt)
  exact lt_irrefl _ (h'.lt k _ (hext k _ hk))

/-- The new numbers are those of the new keys. -/
lemma length_le_iff {k : κ} {v : ℕ} (hk : φ' k = some v) : vs.length ≤ v ↔ φ k = none := by
  constructor
  · intro hge
    cases hφ : φ k with
    | none => rfl
    | some w =>
        have hw := h.lt k w hφ
        have hwv : w = v := Option.some.inj ((hext k w hφ).symm.trans hk)
        omega
  · intro hnone
    by_contra hlt
    obtain ⟨k', hk'⟩ := h.surj v (not_le.mp hlt)
    obtain rfl := h'.inj k k' v hk (hext k' v hk')
    rw [hk'] at hnone
    cases hnone

/-- **A later representation has one more number for each new key**, when the keys
that are new are known. -/
theorem length_eq {keys : List κ} (hnodup : keys.Nodup)
    (hkeys : ∀ k, (T'.info k).isSome ↔ (T.info k).isSome ∨ k ∈ keys) :
    vs'.length = vs.length + keys.countP fun k => (φ k).isNone := by
  have hplaced : ∀ k ∈ keys, ∃ v, φ' k = some v := by
    intro k hk
    obtain ⟨x, hx⟩ := Option.isSome_iff_exists.mp ((hkeys k).mpr (.inr hk))
    obtain ⟨v, hv, -⟩ := h'.placed hx
    exact ⟨v, hv⟩
  -- the new numbers are the places of the new keys
  let fresh : List κ := keys.filter fun k => (φ k).isNone
  have hnumbers : ∀ v, v ∈ Finset.Ico vs.length vs'.length ↔ v ∈ fresh.map (place φ') := by
    intro v
    rw [Finset.mem_Ico, List.mem_map]
    constructor
    · rintro ⟨hge, hlt⟩
      obtain ⟨k, hk⟩ := h'.surj v hlt
      have hnone := (h.length_le_iff h' hext hk).mp hge
      obtain ⟨x, -, hx⟩ := h'.info_some hk
      rcases (hkeys k).mp (by rw [hx]; rfl) with hold | hmem
      · rw [h.info_eq_none_iff.mpr hnone] at hold
        cases hold
      · exact ⟨k, List.mem_filter.mpr ⟨hmem, by rw [hnone]; rfl⟩, place_eq hk⟩
    · rintro ⟨k, hmem, rfl⟩
      obtain ⟨hmem, hnone⟩ := List.mem_filter.mp hmem
      obtain ⟨v, hv⟩ := hplaced k hmem
      rw [place_eq hv]
      exact ⟨(h.length_le_iff h' hext hv).mpr (Option.isNone_iff_eq_none.mp hnone), h'.lt k v hv⟩
  have hfresh : (fresh.map (place φ')).Nodup := by
    refine (hnodup.filter _).map_on fun k hk k' hk' heq => ?_
    obtain ⟨v, hv⟩ := hplaced k (List.mem_of_mem_filter hk)
    obtain ⟨v', hv'⟩ := hplaced k' (List.mem_of_mem_filter hk')
    rw [place_eq hv, place_eq hv'] at heq
    subst heq
    exact h'.inj k k' v hv hv'
  have hle := h.length_le h' hext
  have hcard : vs'.length - vs.length = keys.countP fun k => (φ k).isNone :=
    calc vs'.length - vs.length = (Finset.Ico vs.length vs'.length).card := (Nat.card_Ico _ _).symm
      _ = (fresh.map (place φ')).toFinset.card := by
          congr 1
          ext v
          rw [hnumbers, List.mem_toFinset]
      _ = (fresh.map (place φ')).length := List.toFinset_card_of_nodup hfresh
      _ = keys.countP fun k => (φ k).isNone := by
          rw [List.length_map, List.countP_eq_length_filter]
  omega

end Later

/-! ### Changes of a representation -/

variable [DecidableEq κ]

/-- A vertex appended for a key that was placed nowhere. -/
theorem new (h : Numbers φ vs es T) {k : κ} (hk : φ k = none) (v₀ : V) :
    Numbers (Function.update φ k (some vs.length)) (vs ++ [v₀]) es (T.touch k v₀) := by
  have hext := Extends.update hk vs.length
  have hnone : T.info k = none := h.info_eq_none_iff.mpr hk
  refine ⟨fun k' v hv => ?_, fun k₁ k₂ v h₁ h₂ => ?_, fun v hv => ?_, fun k' => ?_,
    fun a ha => ?_, h.map_place hext⟩
  · rw [List.length_append, List.length_singleton]
    by_cases hkk : k' = k
    · subst hkk
      simp only [Function.update_self, Option.some.injEq] at hv
      omega
    · rw [Function.update_of_ne hkk] at hv
      exact Nat.lt_succ_of_lt (h.lt k' v hv)
  · by_cases hk₁ : k₁ = k <;> by_cases hk₂ : k₂ = k
    · rw [hk₁, hk₂]
    · subst hk₁
      rw [Function.update_self, Option.some.injEq] at h₁
      rw [Function.update_of_ne hk₂] at h₂
      have := h.lt k₂ v h₂
      omega
    · subst hk₂
      rw [Function.update_self, Option.some.injEq] at h₂
      rw [Function.update_of_ne hk₁] at h₁
      have := h.lt k₁ v h₁
      omega
    · rw [Function.update_of_ne hk₁] at h₁
      rw [Function.update_of_ne hk₂] at h₂
      exact h.inj k₁ k₂ v h₁ h₂
  · rw [List.length_append, List.length_singleton] at hv
    rcases Nat.lt_succ_iff_lt_or_eq.mp hv with hv | rfl
    · obtain ⟨k', hk'⟩ := h.surj v hv
      exact ⟨k', hext k' v hk'⟩
    · exact ⟨k, by simp⟩
  · by_cases hkk : k' = k
    · subst hkk
      simp [hnone]
    · rw [Keyed.touch_info_of_ne hkk, Function.update_of_ne hkk, h.info]
      cases hφ : φ k' with
      | none => rfl
      | some v =>
          have hv := h.lt k' v hφ
          simp [List.getElem?_append_left hv]
  · obtain ⟨⟨u, hu⟩, v, hv⟩ := h.ends a ha
    exact ⟨⟨u, hext _ _ hu⟩, v, hext _ _ hv⟩

/-- The value at a placed key is changed. -/
theorem update (h : Numbers φ vs es T) {k : κ} {v : ℕ} (hk : φ k = some v) (f : V → V) :
    Numbers φ (vs.modify v f) es (T.update k f) := by
  refine ⟨fun k' v' hv => ?_, h.inj, fun v' hv => ?_, fun k' => ?_, h.ends, h.arcs⟩
  · simpa using h.lt k' v' hv
  · exact h.surj v' (by simpa using hv)
  · by_cases hkk : k' = k
    · subst hkk
      rw [Keyed.update_info_self, h.info, hk]
      simp
    · rw [Keyed.update_info_of_ne hkk, h.info]
      cases hφ : φ k' with
      | none => rfl
      | some v' =>
          have hne : v ≠ v' := by
            rintro rfl
            exact hkk (h.inj k' k v hφ hk)
          simp [hne]

end Numbers

/-! ### Equivalent keyed multigraphs have isomorphic representations -/

/-- The same keys with related values, and the same arcs up to their order. -/
structure Keyed.Equiv {κ V ε : Type} (R : V → V → Prop) (T T' : Keyed κ V ε) : Prop where
  info : ∀ k, Option.Rel R (T.info k) (T'.info k)
  arcs : T.arcs.Perm T'.arcs

lemma Option.rel_equivalence {V : Type} {R : V → V → Prop} (hR : Equivalence R) :
    Equivalence (Option.Rel R) where
  refl x := by
    cases x with
    | none => exact .none
    | some x => exact .some (hR.refl x)
  symm h := by
    cases h with
    | none => exact .none
    | some h => exact .some (hR.symm h)
  trans h h' := by
    cases h with
    | none => exact h'
    | some h =>
        cases h' with
        | some h' => exact .some (hR.trans h h')

/-- Related options have related values when nothing counts as `x₀`. -/
lemma Option.Rel.getD {V : Type} {R : V → V → Prop} {x y : Option V} (h : Option.Rel R x y)
    {x₀ : V} (h₀ : R x₀ x₀) : R (x.getD x₀) (y.getD x₀) := by
  cases h with
  | none => exact h₀
  | some h => exact h

lemma Keyed.Equiv.equivalence {κ V ε : Type} {R : V → V → Prop} (hR : Equivalence R) :
    Equivalence (Keyed.Equiv R : Keyed κ V ε → Keyed κ V ε → Prop) where
  refl _ := ⟨fun _ => (Option.rel_equivalence hR).refl _, List.Perm.refl _⟩
  symm h := ⟨fun k => (Option.rel_equivalence hR).symm (h.info k), h.arcs.symm⟩
  trans h h' := ⟨fun k => (Option.rel_equivalence hR).trans (h.info k) (h'.info k),
    h.arcs.trans h'.arcs⟩

/-- **Representations of equivalent keyed multigraphs are isomorphic**: a
bijection of the vertex numbers that follows the keys carries the arcs over and
relates the values. -/
theorem Numbers.exists_iso {κ V ε : Type} {φ φ' : κ → Option ℕ} {vs vs' : List V}
    {es es' : List (Arc ℕ ε)} {T T' : Keyed κ V ε} {R : V → V → Prop}
    (h : Numbers φ vs es T) (h' : Numbers φ' vs' es' T') (hT : Keyed.Equiv R T T') :
    ∃ f : ℕ → ℕ, Set.BijOn f (Set.Iio vs.length) (Set.Iio vs'.length) ∧
      (∀ k, φ' k = (φ k).map f) ∧
      (∀ v x, vs[v]? = some x → ∃ y, vs'[f v]? = some y ∧ R x y) ∧
      (es.map (Arc.map f)).Perm es' := by
  classical
  let f : ℕ → ℕ := fun v => if hv : ∃ k, φ k = some v then place φ' hv.choose else 0
  have hf : ∀ k v, φ k = some v → φ' k = some (f v) := by
    intro k v hk
    have hex : ∃ k, φ k = some v := ⟨k, hk⟩
    obtain ⟨x, -, hx⟩ := h.info_some hk
    have hrel := hT.info k
    rw [hx] at hrel
    cases hy : T'.info k with
    | none => rw [hy] at hrel; cases hrel
    | some y =>
        obtain ⟨w, hw, -⟩ := h'.placed hy
        have hchoose : hex.choose = k := h.inj _ _ v hex.choose_spec hk
        simp only [f, dif_pos hex, hchoose, place_eq hw, hw]
  have hnone : ∀ k, φ k = none → φ' k = none := by
    intro k hk
    have hrel := hT.info k
    rw [h.info_eq_none_iff.mpr hk] at hrel
    refine h'.info_eq_none_iff.mp ?_
    cases hy : T'.info k with
    | none => rfl
    | some y => rw [hy] at hrel; cases hrel
  have hkey : ∀ k, φ' k = (φ k).map f := by
    intro k
    cases hk : φ k with
    | none => exact hnone k hk
    | some v => exact hf k v hk
  refine ⟨f, ⟨fun v hv => ?_, fun v hv w hw hvw => ?_, fun w hw => ?_⟩, hkey, fun v x hx => ?_, ?_⟩
  · obtain ⟨k, hk⟩ := h.surj v hv
    exact h'.lt k _ (hf k v hk)
  · obtain ⟨k, hk⟩ := h.surj v hv
    obtain ⟨k', hk'⟩ := h.surj w hw
    have hfw : φ' k' = some (f v) := by rw [hf k' w hk', hvw]
    obtain rfl := h'.inj k k' _ (hf k v hk) hfw
    rw [hk, Option.some.injEq] at hk'
    exact hk'
  · obtain ⟨k, hk⟩ := h'.surj w hw
    cases hφ : φ k with
    | none => rw [hnone k hφ] at hk; exact absurd hk (by simp)
    | some v =>
        rw [hf k v hφ, Option.some.injEq] at hk
        exact ⟨v, h.lt k v hφ, hk⟩
  · have hv : v < vs.length := by
      by_contra hge
      rw [List.getElem?_eq_none (by omega)] at hx
      exact absurd hx (by simp)
    obtain ⟨k, hk⟩ := h.surj v hv
    obtain ⟨x', hx', hTx⟩ := h.info_some hk
    rw [hx, Option.some.injEq] at hx'
    subst hx'
    obtain ⟨y, hy, hTy⟩ := h'.info_some (hf k v hk)
    have hrel := hT.info k
    rw [hTx, hTy] at hrel
    cases hrel with
    | some hxy => exact ⟨y, hy, hxy⟩
  · rw [h'.arcs, h.arcs, List.map_map]
    have hcongr : T.arcs.map (Arc.map f ∘ Arc.map (place φ)) = T.arcs.map (Arc.map (place φ')) := by
      refine List.map_congr_left fun a ha => ?_
      obtain ⟨⟨u, hu⟩, v, hv⟩ := h.ends a ha
      simp [Arc.map, place_eq hu, place_eq hv, place_eq (hf _ _ hu), place_eq (hf _ _ hv)]
    rw [hcongr]
    exact hT.arcs.map _
