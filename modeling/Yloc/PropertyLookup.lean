import Yloc.GraphElement

/-!
What the two implementations of `GraphElement::get` return.

Both look for the first adapter that answers: with the property of the global map where
it knows the name, else with the properties of the module maps. The template skips
properties of other types, the specialisation for strings writes every value to a
stream.

* `GraphElement.get_append`, `GraphElement.get_addAdapters`: the lookup on adapters in
  a row, so adapters that come later change no value returned.
* `StreamOut`: `operator<<` of the value types.
* `GraphElement.getString_eq_map`: the specialisation is the template followed by
  `operator<<`, where a name has one type.
* `get_laws`: the laws of the lookup.
-/

namespace Yloc

variable {n : ℕ}

/-- `operator<<` of the value types, which gives what the properties of the global map
print, and leaves strings as they are. -/
structure StreamOut (n : ℕ) where
  print : ∀ T : TypeId, T.denote n → String
  uint64 : ∀ v : UInt64, print .uint64 v = ToString.toString v
  int64 : ∀ v : Int64, print .int64 v = ToString.toString v
  affinityMask : ∀ m : AffinityMask n, print .affinityMask m =
    String.ofList ((List.range n).reverse.map fun cpu => if m.get cpu then '1' else '0')
  string : ∀ s : String, print .string s = s

namespace StreamOut

/-- Values of further types are written byte by byte. -/
def standard (n : ℕ) : StreamOut n where
  print
    | .uint64 => fun v : UInt64 => ToString.toString v
    | .int64 => fun v : Int64 => ToString.toString v
    | .affinityMask => fun m : AffinityMask n =>
        String.ofList ((List.range n).reverse.map fun cpu => if m.get cpu then '1' else '0')
    | .string => fun s : String => s
    | .other _ => fun bytes : List UInt8 => String.ofList (bytes.map fun b => Char.ofNat b.toNat)
  uint64 _ := rfl
  int64 _ := rfl
  affinityMask _ := rfl
  string _ := rfl

variable (out : StreamOut n)

/-- The property is printed by `operator<<` of its type, as those of the template are. -/
def Prints (p : Property n) : Prop := ∀ v, p.print v = out.print p.typeId v

/-- The properties of the global map are printed by `operator<<`. -/
lemma prints_map : ∀ e ∈ (Adapter.map : List (String × Property n)), out.Prints e.2 := by
  have huint64 : ∀ pf : Adapter.Values n → Option UInt64, out.Prints (.ofUInt64 pf) :=
    fun _ v => (out.uint64 v).symm
  have hint64 : ∀ pf : Adapter.Values n → Option Int64, out.Prints (.ofInt64 pf) :=
    fun _ v => (out.int64 v).symm
  have hmask : ∀ pf : Adapter.Values n → Option (AffinityMask n), out.Prints (.ofMask pf) :=
    fun _ v => (out.affinityMask v).symm
  simp only [Adapter.map, List.forall_mem_cons, huint64, hint64, hmask, true_and, List.not_mem_nil,
    false_implies, implies_true]

lemma prints_of_lookup {name : String} {p : Property n} (h : Adapter.map.lookup name = some p) :
    out.Prints p := by
  obtain ⟨l₁, l₂, hmap, -⟩ := List.lookup_eq_some_iff.mp h
  exact out.prints_map (name, p) (by rw [hmap]; simp)

end StreamOut

namespace Property

variable {p : Property n} {T : TypeId}

/-- What is printed is the value as one of its type. -/
lemma valueToString_eq {out : StreamOut n} (hp : out.Prints p) (hT : p.typeId = T)
    (a : Adapter.Values n) : p.valueToString a = (p.valueAs T a).map (out.print T) := by
  subst hT
  rw [valueToString, valueAs, dif_pos rfl, funext hp]

/-- A property has no value as one of another type. -/
lemma valueAs_of_ne (hT : p.typeId ≠ T) (a : Adapter.Values n) : p.valueAs T a = none :=
  dif_neg hT

end Property

/-- Answers that agree have the same first one. -/
lemma findSome?_congr {α β : Type} {f f' : α → Option β} {l : List α}
    (h : ∀ a ∈ l, f a = f' a) : l.findSome? f = l.findSome? f' := by
  induction l with
  | nil => rfl
  | cons a l ih =>
      rw [List.findSome?_cons, List.findSome?_cons, h a List.mem_cons_self,
        ih fun b hb => h b (List.mem_cons_of_mem _ hb)]

namespace GraphElement

/-- The template is meant for every type but strings. -/
lemma get_of_ne {rt : TypeId} (h : rt ≠ .string) (v : GraphElement n) (name : String) :
    v.get rt name = v.getTyped rt name := by
  cases rt <;> first | rfl | exact absurd rfl h

/-! ### Adapters in a row -/

/-- **The lookup is a first match**: what the earlier adapters answer, else what the
later ones do. -/
theorem get_append (v : GraphElement n) (xs ys : List (Adapter n)) (rt : TypeId) (name : String) :
    ({ v with mAdapters := xs ++ ys } : GraphElement n).get rt name =
      (({ v with mAdapters := xs } : GraphElement n).get rt name).or
        (({ v with mAdapters := ys } : GraphElement n).get rt name) := by
  have hstring : ∀ name, ({ v with mAdapters := xs ++ ys } : GraphElement n).getString name =
      (({ v with mAdapters := xs } : GraphElement n).getString name).or
        (({ v with mAdapters := ys } : GraphElement n).getString name) := by
    intro name
    rw [getString, getString, getString]
    cases Adapter.map.lookup name with
    | some p => exact List.findSome?_append
    | none => exact List.findSome?_append
  have htyped : ∀ rt, ({ v with mAdapters := xs ++ ys } : GraphElement n).getTyped rt name =
      (({ v with mAdapters := xs } : GraphElement n).getTyped rt name).or
        (({ v with mAdapters := ys } : GraphElement n).getTyped rt name) := by
    intro rt
    rw [getTyped, getTyped, getTyped]
    cases Adapter.map.lookup name with
    | some p => exact List.findSome?_append
    | none => exact List.findSome?_append
  by_cases hrt : rt = .string
  · subst hrt
    exact hstring name
  · rw [get_of_ne hrt, get_of_ne hrt, get_of_ne hrt]
    exact htyped rt

/-- Calls of `add_adapter` append the adapters. -/
lemma addAdapters_eq (v : GraphElement n) (as : List (Adapter n)) :
    as.foldl (fun v a => v.addAdapter a) v = { v with mAdapters := v.mAdapters ++ as } := by
  induction as generalizing v with
  | nil => simp
  | cons a as ih =>
      rw [List.foldl_cons, ih]
      simp [addAdapter]

/-- Adapters that are added change no value returned before. -/
lemma get_addAdapters {v : GraphElement n} {rt : TypeId} {name : String} {x : rt.denote n}
    (h : v.get rt name = some x) (as : List (Adapter n)) :
    (as.foldl (fun v a => v.addAdapter a) v).get rt name = some x := by
  rw [addAdapters_eq, get_append, show { v with mAdapters := v.mAdapters } = v from rfl, h]
  rfl

/-! ### The two implementations -/

variable {v : GraphElement n} {name : String} {T : TypeId}

/-- **The specialisation for strings is the template followed by `operator<<`** where
every property that the lookup meets has the type `T`. -/
theorem getString_eq_map (out : StreamOut n)
    (hglobal : ∀ p : Property n, Adapter.map.lookup name = some p → p.typeId = T)
    (hmodule : (Adapter.map : List (String × Property n)).lookup name = none →
      ∀ a ∈ v.mAdapters, ∀ p, a.moduleMap.lookup name = some p → p.typeId = T ∧ out.Prints p) :
    v.getString name = (v.getTyped T name).map (out.print T) := by
  rw [getString, getTyped]
  cases hlookup : (Adapter.map : List (String × Property n)).lookup name with
  | some p =>
      simp only [List.map_findSome?]
      refine findSome?_congr fun a _ => ?_
      exact Property.valueToString_eq (out.prints_of_lookup hlookup) (hglobal p hlookup) a.toValues
  | none =>
      simp only [List.map_findSome?]
      refine findSome?_congr fun a ha => ?_
      cases hp : a.moduleMap.lookup name with
      | none => simp [hp]
      | some p =>
          obtain ⟨htype, hprints⟩ := hmodule hlookup a ha p hp
          simpa [hp] using Property.valueToString_eq hprints htype a.toValues

/-- The same of `get`, also where the type is that of strings. -/
lemma get_string_eq_map (out : StreamOut n)
    (hglobal : ∀ p : Property n, Adapter.map.lookup name = some p → p.typeId = T)
    (hmodule : (Adapter.map : List (String × Property n)).lookup name = none →
      ∀ a ∈ v.mAdapters, ∀ p, a.moduleMap.lookup name = some p → p.typeId = T ∧ out.Prints p) :
    v.get .string name = (v.get T name).map (out.print T) := by
  by_cases hT : T = .string
  · subst hT
    rw [show out.print .string = id from funext out.string]
    exact (Option.map_id_fun ▸ rfl : v.get .string name = (v.get .string name).map id)
  · rw [get_of_ne hT]
    exact getString_eq_map out hglobal hmodule

/-- A name of the global map has no value of another type. -/
lemma getTyped_of_ne {p : Property n} (hlookup : Adapter.map.lookup name = some p)
    (hT : p.typeId ≠ T) : v.getTyped T name = none := by
  rw [getTyped, hlookup]
  exact List.findSome?_eq_none_iff.mpr fun a _ => Property.valueAs_of_ne hT _

/-- The lookup of a name of the global map reads no module map. -/
lemma get_of_toValues_eq {w : GraphElement n} {p : Property n}
    (hlookup : Adapter.map.lookup name = some p)
    (hvalues : w.mAdapters.map Adapter.toValues = v.mAdapters.map Adapter.toValues)
    (rt : TypeId) : w.get rt name = v.get rt name := by
  have hread : ∀ {β : Type} (answer : Adapter.Values n → Option β) (u : GraphElement n),
      (u.mAdapters.findSome? fun a => answer a.toValues) =
        (u.mAdapters.map Adapter.toValues).findSome? answer := by
    intro β answer u
    rw [List.findSome?_map]
    rfl
  have hstring : w.getString name = v.getString name := by
    rw [getString, getString, hlookup]
    exact (hread _ w).trans ((congrArg _ hvalues).trans (hread _ v).symm)
  have htyped : w.getTyped rt name = v.getTyped rt name := by
    rw [getTyped, getTyped, hlookup]
    exact (hread _ w).trans ((congrArg _ hvalues).trans (hread _ v).symm)
  by_cases hrt : rt = .string
  · subst hrt
    exact hstring
  · rw [get_of_ne hrt, get_of_ne hrt]
    exact htyped

end GraphElement

/-- **The laws of the lookup.** It is a first match, so adapters that are added change no
value returned. The lookup of a string is that of a value followed by `operator<<`, both
for a name of the global map, which has values of its own type only and for which no
module map is read, and for another name that the module maps register with one type. -/
theorem get_laws (out : StreamOut n) (v : GraphElement n) (name : String) :
    (∀ rt xs ys, ({ v with mAdapters := xs ++ ys } : GraphElement n).get rt name =
      (({ v with mAdapters := xs } : GraphElement n).get rt name).or
        (({ v with mAdapters := ys } : GraphElement n).get rt name)) ∧
    (∀ rt x, v.get rt name = some x →
      ∀ as : List (Adapter n), (as.foldl (fun v a => v.addAdapter a) v).get rt name = some x) ∧
    (∀ p : Property n, Adapter.map.lookup name = some p →
      v.get .string name = (v.get p.typeId name).map (out.print p.typeId) ∧
      (∀ rt, rt ≠ p.typeId → rt ≠ .string → v.get rt name = none) ∧
      ∀ w : GraphElement n, w.mAdapters.map Adapter.toValues = v.mAdapters.map Adapter.toValues →
        ∀ rt, w.get rt name = v.get rt name) ∧
    ((Adapter.map : List (String × Property n)).lookup name = none → ∀ T,
      (∀ a ∈ v.mAdapters, ∀ p, a.moduleMap.lookup name = some p → p.typeId = T ∧ out.Prints p) →
      v.get .string name = (v.get T name).map (out.print T)) := by
  refine ⟨fun rt xs ys => v.get_append xs ys rt name, fun rt x h as =>
    GraphElement.get_addAdapters h as, fun p hp => ⟨?_, fun rt hrt hstring => ?_,
    fun w hw rt => GraphElement.get_of_toValues_eq hp hw rt⟩, fun hnone T hmodule => ?_⟩
  · refine GraphElement.get_string_eq_map out (fun p' hp' => ?_) fun hnone => ?_
    · rw [Option.some.inj (hp'.symm.trans hp)]
    · rw [hp] at hnone
      cases hnone
  · rw [GraphElement.get_of_ne hstring]
    exact GraphElement.getTyped_of_ne hp (Ne.symm hrt)
  · refine GraphElement.get_string_eq_map out (fun p' hp' => ?_) fun _ => hmodule
    rw [hnone] at hp'
    cases hp'

/-- A device with two adapters, the second of which overrides the map: it knows a slot,
and calls memory what the global map calls usage. -/
def slotElement : GraphElement 0 where
  mAdapters := [{ mObj := .nvmlDevice 0 },
    { memory := some 64, usage := some 7, mObj := .nvmlDevice 1,
      moduleMap := [("slot", .ofUInt64 fun _ => some 3), ("memory", .ofUInt64 (·.usage))] }]

/-- A name of the global map, and one of a module map. -/
theorem get_laws_slotElement :
    (slotElement.get .string "memory" =
        (slotElement.get .uint64 "memory").map ((StreamOut.standard 0).print .uint64) ∧
      slotElement.get .uint64 "memory" = some (64 : UInt64)) ∧
    slotElement.get .string "slot" =
        (slotElement.get .uint64 "slot").map ((StreamOut.standard 0).print .uint64) ∧
      slotElement.get .uint64 "slot" = some (3 : UInt64) := by
  refine ⟨⟨((get_laws (StreamOut.standard 0) slotElement "memory").2.2.1 _ rfl).1, rfl⟩,
    (get_laws (StreamOut.standard 0) slotElement "slot").2.2.2 rfl .uint64 fun a ha p hp => ?_, rfl⟩
  rcases List.mem_pair.mp ha with rfl | rfl
  · cases hp
  · obtain rfl := Option.some.inj hp
    exact ⟨rfl, fun _ => rfl⟩

end Yloc
