import Yloc.Modules.SuperMuc

/-!
The host names that `ModuleSuperMUC::init_graph` lets pass.

The module tests the length of the host name and scans it with
`"i%2[0-9]r%2[0-9]c%2[0-9]s%2[0-9]"`, which also accepts single digits and does not look
at what follows: with a length of twelve the two can make up for each other.

* `twoDigitFields`, `SupermucName`: the naming convention.
* `Fields`: what the scan reads, and `sscanfFields_eq_length_iff`, that it is this.
* `checksName_iff_not_shortDigits`: the test is the convention on all names but those with
  a single digit in one of the fields.
-/

namespace Yloc

variable {n : ℕ}

/-- The letters in turn, each followed by two digits, and nothing else. -/
def twoDigitFields : List Char → List Char → Bool
  | [], [] => true
  | letter :: letters, c :: a :: b :: rest =>
      c == letter && a.isDigit && b.isDigit && twoDigitFields letters rest
  | _, _ => false

/-- The name is of the form `iDDrDDcDDsDD`. -/
def SupermucName (hostname : String) : Prop :=
  twoDigitFields ['i', 'r', 'c', 's'] hostname.toList = true

/-- A field of the letter, as it stands at the front of the input: its digits are the first
two characters, or the first one where the second is no digit. -/
inductive Fields : List Char → List (List Char) → List Char → List Char → Prop where
  | nil (rest) : Fields [] [] rest rest
  | one {letter letters a groups rest input} : a.isDigit = true →
      (∀ b ∈ input.head?, b.isDigit = false) → Fields letters groups rest input →
      Fields (letter :: letters) ([a] :: groups) rest (letter :: a :: input)
  | two {letter letters a b groups rest input} : a.isDigit = true → b.isDigit = true →
      Fields letters groups rest input →
      Fields (letter :: letters) ([a, b] :: groups) rest (letter :: a :: b :: input)

/-- Twelve characters that begin with the four fields, one of them with a single digit. -/
def ShortDigits (hostname : String) : Prop :=
  hostname.length = 12 ∧ ∃ groups rest, Fields ['i', 'r', 'c', 's'] groups rest hostname.toList ∧
    ∃ group ∈ groups, group.length = 1

/-- The check of the host name does what it is there for. -/
structure ChecksName (source : SupermucSource) (g : Graph n) : Prop where
  /-- The module goes on to the graph with the names of the convention and no others. -/
  accepts : (source.initGraph g).1 = .success ↔ SupermucName source.hostname
  /-- Then the cuts of `make_supermuc_graph` are the names of the column, the rack and the
  island. -/
  cuts : (source.initGraph g).1 = .success →
    twoDigitFields ['i', 'r', 'c'] (cut source.hostname 9).toList = true ∧
    twoDigitFields ['i', 'r'] (cut source.hostname 6).toList = true ∧
    twoDigitFields ['i'] (cut source.hostname 3).toList = true
  /-- What a field writes, with its NUL, has room in three characters. -/
  buffers : ∀ input rest, scanDigits input = some rest →
    ∃ group, input = group ++ rest ∧ group.length + 1 ≤ 3

/-! ### The naming convention -/

/-- A name of the convention has three characters for each letter. -/
lemma twoDigitFields_length {letters input : List Char}
    (h : twoDigitFields letters input = true) : input.length = 3 * letters.length := by
  fun_induction twoDigitFields letters input with
  | case1 => rfl
  | case2 letter letters c a b rest ih =>
      rw [Bool.and_eq_true] at h
      simp only [List.length_cons, ih h.2]
      omega
  | case3 => cases h

/-- The first fields of a name are a name. -/
lemma twoDigitFields_take {input : List Char} (letters letters' : List Char)
    (h : twoDigitFields (letters ++ letters') input = true) :
    twoDigitFields letters (input.take (3 * letters.length)) = true := by
  induction letters generalizing input with
  | nil => rfl
  | cons letter letters ih =>
      match input, h with
      | c :: a :: b :: rest, h =>
          rw [List.cons_append, twoDigitFields, Bool.and_eq_true] at h
          rw [List.length_cons, Nat.mul_succ]
          simp only [List.take_succ_cons, twoDigitFields, Bool.and_eq_true]
          exact ⟨by simpa only [Bool.and_eq_true] using h.1, ih h.2⟩

lemma SupermucName.length {hostname : String} (h : SupermucName hostname) :
    hostname.length = 12 := by
  rw [← String.length_toList, twoDigitFields_length h]
  rfl

/-! ### What the scan reads -/

/-- `%2[0-9]` reads a single digit before another character, or two digits. -/
lemma scanDigits_eq_some_iff {input rest : List Char} : scanDigits input = some rest ↔
    (∃ a, a.isDigit = true ∧ (∀ b ∈ rest.head?, b.isDigit = false) ∧ input = a :: rest) ∨
    ∃ a b, a.isDigit = true ∧ b.isDigit = true ∧ input = a :: b :: rest := by
  constructor
  · intro h
    fun_cases scanDigits input with
    | case1 => cases h
    | case2 a ha =>
        simp only [scanDigits, ha, if_true, Option.some.injEq] at h
        subst h
        exact .inl ⟨a, ha, by simp, rfl⟩
    | case3 a ha b input hb =>
        simp only [scanDigits, ha, hb, if_true, Option.some.injEq] at h
        subst h
        exact .inr ⟨a, b, ha, hb, rfl⟩
    | case4 a ha b input hb =>
        simp only [scanDigits, ha, hb, if_true, Bool.false_eq_true, if_false,
          Option.some.injEq] at h
        subst h
        exact .inl ⟨a, ha, by simpa using hb, rfl⟩
    | case5 a input ha => simp [scanDigits, ha] at h
  · rintro (⟨a, ha, hnext, rfl⟩ | ⟨a, b, ha, hb, rfl⟩)
    · cases rest with
      | nil => simp [scanDigits, ha]
      | cons b rest => simp [scanDigits, ha, hnext b rfl]
    · simp [scanDigits, ha, hb]

/-- A field has one or two characters. -/
lemma exists_group_of_scanDigits {input rest : List Char} (h : scanDigits input = some rest) :
    ∃ group, input = group ++ rest ∧ group.length + 1 ≤ 3 := by
  rcases scanDigits_eq_some_iff.mp h with ⟨a, -, -, rfl⟩ | ⟨a, b, -, -, rfl⟩
  · exact ⟨[a], rfl, by simp⟩
  · exact ⟨[a, b], rfl, le_rfl⟩

/-- **The scan reads all fields of the inputs that begin with them.** -/
theorem sscanfFields_eq_length_iff (letters : List Char) {input : List Char} :
    sscanfFields letters input = letters.length ↔
      ∃ groups rest, Fields letters groups rest input := by
  constructor
  · intro h
    induction letters generalizing input with
    | nil => exact ⟨[], input, .nil input⟩
    | cons letter letters ih =>
        match input, h with
        | c :: input, h =>
            rw [sscanfFields] at h
            split at h
            case isFalse => cases h
            case isTrue hc =>
              subst hc
              cases hscan : scanDigits input with
              | none =>
                  rw [hscan] at h
                  cases h
              | some rest' =>
                  rw [hscan] at h
                  obtain ⟨groups, rest, hfields⟩ := ih (Nat.succ.inj h)
                  rcases scanDigits_eq_some_iff.mp hscan with
                    ⟨a, ha, hnext, rfl⟩ | ⟨a, b, ha, hb, rfl⟩
                  · exact ⟨_, _, .one ha hnext hfields⟩
                  · exact ⟨_, _, .two ha hb hfields⟩
  · rintro ⟨groups, rest, h⟩
    induction h with
    | nil => rw [sscanfFields, List.length_nil]
    | @one _ _ a _ _ _ ha hnext _ ih =>
        rw [sscanfFields, if_pos rfl, scanDigits_eq_some_iff.mpr (.inl ⟨a, ha, hnext, rfl⟩)]
        exact congrArg Nat.succ ih
    | @two _ _ a b _ _ _ ha hb _ ih =>
        rw [sscanfFields, if_pos rfl, scanDigits_eq_some_iff.mpr (.inr ⟨a, b, ha, hb, rfl⟩)]
        exact congrArg Nat.succ ih

namespace Fields

variable {letters rest input : List Char} {groups : List (List Char)}

/-- Fields with two digits each make up three characters for each letter. -/
lemma length_of_two (h : Fields letters groups rest input)
    (htwo : ∀ group ∈ groups, group.length ≠ 1) :
    input.length = 3 * letters.length + rest.length := by
  induction h with
  | nil => simp
  | one => exact absurd rfl (htwo _ List.mem_cons_self)
  | two _ _ _ ih =>
      have hrest := ih fun group hgroup => htwo group (List.mem_cons_of_mem _ hgroup)
      simp only [List.length_cons, hrest]
      omega

/-- Fields with two digits each, to the end of the input. -/
lemma twoDigitFields_of_two (h : Fields letters groups [] input)
    (htwo : ∀ group ∈ groups, group.length ≠ 1) : twoDigitFields letters input = true := by
  generalize hrest : [] = rest at h
  induction h with
  | nil => rw [← hrest, twoDigitFields]
  | one => exact absurd rfl (htwo _ List.mem_cons_self)
  | two ha hb _ ih =>
      simp [twoDigitFields, ha, hb, ih (fun group hgroup =>
        htwo group (List.mem_cons_of_mem _ hgroup)) hrest]

/-- The fields of a name have two digits: a single one stands before another character. -/
lemma two_of_twoDigitFields (h : Fields letters groups rest input)
    (hname : twoDigitFields letters input = true) : ∀ group ∈ groups, group.length ≠ 1 := by
  induction h with
  | nil => simp
  | @one _ _ _ _ _ input ha hnext hfields ih =>
      match input, hname with
      | b :: input, hname =>
          simp only [twoDigitFields, Bool.and_eq_true] at hname
          rw [hnext b rfl] at hname
          cases hname.1.2
  | two ha hb hfields ih =>
      rw [twoDigitFields, Bool.and_eq_true] at hname
      rintro group (_ | ⟨_, hgroup⟩)
      · simp
      · exact ih hname.2 group hgroup

end Fields

/-- The fields of a name. -/
lemma exists_fields_of_twoDigitFields {letters input : List Char}
    (h : twoDigitFields letters input = true) : ∃ groups, Fields letters groups [] input := by
  fun_induction twoDigitFields letters input with
  | case1 => exact ⟨[], .nil []⟩
  | case2 letter letters c a b rest ih =>
      simp only [Bool.and_eq_true, beq_iff_eq] at h
      obtain ⟨⟨⟨rfl, ha⟩, hb⟩, hrest⟩ := h
      obtain ⟨groups, hfields⟩ := ih hrest
      exact ⟨_, .two ha hb hfields⟩
  | case3 => cases h

/-! ### The check -/

lemma followsConvention_iff {hostname : String} : followsConvention hostname = true ↔
    hostname.length = 12 ∧
      ∃ groups rest, Fields ['i', 'r', 'c', 's'] groups rest hostname.toList := by
  rw [followsConvention, Bool.and_eq_true, beq_iff_eq, beq_iff_eq,
    ← sscanfFields_eq_length_iff ['i', 'r', 'c', 's']]
  rfl

/-- A name of the convention passes. -/
lemma SupermucName.followsConvention {hostname : String} (h : SupermucName hostname) :
    Yloc.followsConvention hostname = true := by
  obtain ⟨groups, hfields⟩ := exists_fields_of_twoDigitFields h
  exact followsConvention_iff.mpr ⟨h.length, groups, [], hfields⟩

/-- Of the names that pass, those without a single digit are of the convention. -/
lemma supermucName_of_followsConvention {hostname : String}
    (h : followsConvention hostname = true) (hshort : ¬ ShortDigits hostname) :
    SupermucName hostname := by
  obtain ⟨hlength, groups, rest, hfields⟩ := followsConvention_iff.mp h
  have htwo : ∀ group ∈ groups, group.length ≠ 1 := fun group hgroup hone =>
    hshort ⟨hlength, groups, rest, hfields, group, hgroup, hone⟩
  -- the four fields take up the twelve characters
  have hrest := hfields.length_of_two htwo
  rw [String.length_toList, hlength] at hrest
  obtain rfl : rest = [] := List.length_eq_zero_iff.mp (by simpa using hrest)
  exact hfields.twoDigitFields_of_two htwo

/-- The cuts of a name of the convention. -/
lemma SupermucName.cuts {hostname : String} (h : SupermucName hostname) :
    twoDigitFields ['i', 'r', 'c'] (cut hostname 9).toList = true ∧
    twoDigitFields ['i', 'r'] (cut hostname 6).toList = true ∧
    twoDigitFields ['i'] (cut hostname 3).toList = true := by
  simp only [cut, String.toList_ofList]
  exact ⟨twoDigitFields_take _ ['s'] h, twoDigitFields_take _ ['c', 's'] h,
    twoDigitFields_take _ ['r', 'c', 's'] h⟩

/-- The module goes on to the graph with the names that pass. -/
lemma SupermucSource.initGraph_success {source : SupermucSource} (g : Graph n)
    (hinit : source.initialized = true) :
    (source.initGraph g).1 = .success ↔ Yloc.followsConvention source.hostname = true := by
  rw [source.initGraph_eq, SupermucSource.check, hinit, Bool.true_and]
  split <;> simp_all

/-- **The check of the host name is the naming convention exactly on the names without a
single digit in a field.** -/
theorem checksName_iff_not_shortDigits {source : SupermucSource} (g : Graph n)
    (hinit : source.initialized = true) :
    ChecksName source g ↔ ¬ ShortDigits source.hostname := by
  constructor
  · rintro h ⟨hlength, groups, rest, hfields, group, hgroup, hone⟩
    have hname := h.accepts.mp ((source.initGraph_success g hinit).mpr
      (followsConvention_iff.mpr ⟨hlength, groups, rest, hfields⟩))
    exact hfields.two_of_twoDigitFields hname group hgroup hone
  · intro hshort
    have haccepts : (source.initGraph g).1 = .success ↔ SupermucName source.hostname :=
      (source.initGraph_success g hinit).trans
        ⟨fun h => supermucName_of_followsConvention h hshort, fun h => h.followsConvention⟩
    exact ⟨haccepts, fun h => (haccepts.mp h).cuts, fun _ _ => exists_group_of_scanDigits⟩

/-- A host of the system. -/
theorem checksName_iff_not_shortDigits_slot :
    ChecksName ⟨true, "i01r02c03s04", ["i01r02c03s04"]⟩ ({} : Graph 0) ↔
      ¬ ShortDigits "i01r02c03s04" :=
  checksName_iff_not_shortDigits {} rfl

/-- Four characters after single digits make up for the length. -/
theorem not_checksName_shortDigits :
    ¬ ChecksName ⟨true, "i1r1c1s1abcd", ["i1r1c1s1abcd"]⟩ ({} : Graph 0) := by
  intro h
  have hname : SupermucName "i1r1c1s1abcd" :=
    h.accepts.mp ((SupermucSource.initGraph_success _ rfl).mpr (by decide))
  exact absurd hname (by unfold SupermucName; decide)

end Yloc
