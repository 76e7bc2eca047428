import OpGraph.Operator.Binding

/-!
# `Proofs.Matching` — what it means that a binding takes its inputs

Matching reads the actual types from left to right and carries along what the wildcard stands for so far.
What it decides does not depend on that: a binding takes its inputs exactly if there are enough of them and
one type, put for the wildcard, makes every value agree that is held against an entry
(`TypeBinding.match_means`). A prefix of the values may leave the wildcard open, so the statement about the
loop (`matchFrom_eq_some_iff`) is about the type it ends with, whatever it began with.
-/

namespace OpGraph.TypeBinding

variable {b : TypeBinding} {s w w' t : DataType} {i : Nat} {rest : List DataType}

/-! ## Counts and entries -/

/-- Values are as many as the positions declared for them or, where the last position repeats, as many as
    the other positions and the least number of repetitions. -/
def Enough (declared : Nat) (variadic : Option Variadic) (count : Nat) : Prop :=
  (∃ v, variadic = some v ∧ 0 < declared ∧ declared - 1 + v.least ≤ count) ∨
    ((variadic = none ∨ declared = 0) ∧ count = declared)

theorem arityFits_iff {declared count : Nat} {variadic : Option Variadic} :
    arityFits declared variadic count = true ↔ Enough declared variadic count := by
  unfold arityFits Enough
  cases declared with
  | zero => simp
  | succ d => cases variadic <;> simp

/-- The entry for value `i`: that of its position, and the last one for values behind the end. -/
def entry? (types : List DataType) (i : Nat) : Option DataType := types[i]?.or types.getLast?

theorem entry?_of_getElem? {types : List DataType} {i : Nat} {d : DataType} (h : types[i]? = some d) :
    entry? types i = some d := by
  rw [ entry?, h, Option.some_or]

/-- **No value is looked up outside the entries**, and what is looked up is its entry. -/
theorem Enough.looked_up {types : List DataType} {variadic : Option Variadic} {count : Nat}
    (h : Enough types.length variadic count) (hi : i < count) :
    types[min i (types.length - 1)]? = some (declaredAt types i) ∧
      entry? types i = some (declaredAt types i) := by
  have hpos : 0 < types.length := by
    rcases h with ⟨_, _, hpos, _⟩ | ⟨_, rfl⟩
    · exact hpos
    · exact Nat.zero_lt_of_lt hi
  have hlt : min i (types.length - 1) < types.length := by omega
  have hget : types[min i (types.length - 1)]? = some (declaredAt types i) := by
    rw [declaredAt, List.getD_eq_getElem?_getD, List.getElem?_eq_getElem hlt, Option.getD_some]
  refine ⟨hget, ?_⟩
  rw [← hget, entry?]
  by_cases hin : i < types.length
  · rw [Nat.min_eq_left (by omega), List.getElem?_eq_getElem hin, Option.some_or]
  · rw [Nat.min_eq_right (by omega), List.getElem?_eq_none (by omega), Option.none_or,
      List.getLast?_eq_getElem?]

/-! ## One value -/

/-- Value `i` is held against its entry: its type is known, and it is no further value of a last position
    whose values may differ. -/
def Held (b : TypeBinding) (i : Nat) (t : DataType) : Prop :=
  t ≠ .undefined ∧ (i < b.inputs.length ∨ ∀ v, b.variadicInput = some v → v.homogeneous = true)

theorem held_iff : b.Held i t ↔ (t = .undefined || !b.isChecked i) = false := by
  have hchecked : b.isChecked i = true ↔
      (i < b.inputs.length ∨ ∀ v, b.variadicInput = some v → v.homogeneous = true) := by
    unfold isChecked
    cases b.variadicInput with
    | none => simp
    | some v => simp [or_comm]
  rw [Held, ← hchecked]
  simp

theorem matchOne_of_not_held (h : ¬b.Held i t) : b.matchOne w i t = some w := by
  rw [held_iff, Bool.not_eq_false] at h
  rw [matchOne, if_pos h]

theorem matchOne_of_held (h : b.Held i t) : b.matchOne w i t =
    if declaredAt b.inputs i = .undefined then
      if w = .undefined ∨ w = t then some t else none
    else if declaredAt b.inputs i = t then some w else none := by
  rw [held_iff] at h
  rw [matchOne, if_neg (by simp [h])]
  by_cases hwild : declaredAt b.inputs i = .undefined
  · by_cases hopen : w = .undefined
    · simp [hwild, hopen]
    · by_cases hsame : w = t <;> simp [hwild, hopen, hsame]
  · simp [hwild]

/-- A value agrees with its entry, and the wildcard changes only if it was open and the value met it. -/
theorem matchOne_eq_some_iff : b.matchOne w i t = some w' ↔
    (b.Held i t → fill w' (declaredAt b.inputs i) = t) ∧ (w ≠ .undefined → w' = w) ∧
      (¬(b.Held i t ∧ declaredAt b.inputs i = .undefined) → w' = w) := by
  by_cases hheld : b.Held i t
  · rw [matchOne_of_held hheld]
    unfold fill
    by_cases hwild : declaredAt b.inputs i = .undefined
    · rw [if_pos hwild, if_pos hwild]
      grind
    · rw [if_neg hwild, if_neg hwild]
      grind
  · rw [matchOne_of_not_held hheld]
    grind

/-! ## All values -/

/-- With `s` put for the wildcard, values that come from position `i` on have the types of their entries. -/
def AgreesFrom (b : TypeBinding) (s : DataType) (i : Nat) (values : List DataType) : Prop :=
  ∀ k t, values[k]? = some t → b.Held (i + k) t → fill s (declaredAt b.inputs (i + k)) = t

/-- Some value that comes from position `i` on is held against the wildcard. -/
def MeetsFrom (b : TypeBinding) (i : Nat) (values : List DataType) : Prop :=
  ∃ k t, values[k]? = some t ∧ b.Held (i + k) t ∧ declaredAt b.inputs (i + k) = .undefined

theorem agreesFrom_cons : b.AgreesFrom s i (t :: rest) ↔
    (b.Held i t → fill s (declaredAt b.inputs i) = t) ∧ b.AgreesFrom s (i + 1) rest := by
  unfold AgreesFrom
  constructor
  · refine fun h => ⟨h 0 t rfl, fun k u hu => ?_⟩
    rw [Nat.add_assoc, Nat.add_comm 1 k]
    exact h (k + 1) u hu
  · rintro ⟨hhead, hrest⟩ k u hu
    cases k with
    | zero =>
        obtain rfl := Option.some.inj hu
        exact hhead
    | succ k =>
        have hnext := hrest k u hu
        rwa [Nat.add_assoc, Nat.add_comm 1 k] at hnext

theorem meetsFrom_cons : b.MeetsFrom i (t :: rest) ↔
    (b.Held i t ∧ declaredAt b.inputs i = .undefined) ∨ b.MeetsFrom (i + 1) rest := by
  unfold MeetsFrom
  constructor
  · rintro ⟨k, u, hu, hmeets⟩
    cases k with
    | zero =>
        obtain rfl := Option.some.inj hu
        exact Or.inl hmeets
    | succ k =>
        refine Or.inr ⟨k, u, hu, ?_⟩
        rwa [Nat.add_assoc, Nat.add_comm 1 k]
  · rintro (hmeets | ⟨k, u, hu, hmeets⟩)
    · exact ⟨0, t, rfl, hmeets⟩
    · refine ⟨k + 1, u, hu, ?_⟩
      rwa [Nat.add_assoc, Nat.add_comm 1 k] at hmeets

/-- Where no value meets the wildcard it does not matter what is put for it. -/
theorem AgreesFrom.congr {values : List DataType} (h : b.AgreesFrom s i values)
    (hnone : ¬b.MeetsFrom i values) : b.AgreesFrom w i values := by
  intro k t ht hheld
  have hconcrete : declaredAt b.inputs (i + k) ≠ .undefined := fun hwild => hnone ⟨k, t, ht, hheld, hwild⟩
  have hagrees := h k t ht hheld
  rwa [fill, if_neg hconcrete] at hagrees ⊢

theorem matchFrom_cons_eq_some_iff : b.matchFrom w i (t :: rest) = some w' ↔
    ∃ w₁, b.matchOne w i t = some w₁ ∧ b.matchFrom w₁ (i + 1) rest = some w' := by
  rw [matchFrom]
  cases b.matchOne w i t <;> simp

/-- **What the loop ends with is what has to be put for the wildcard.** It keeps what it began with, unless
    that was open and a value meets the wildcard. -/
theorem matchFrom_eq_some_iff {values : List DataType} : b.matchFrom w i values = some w' ↔
    b.AgreesFrom w' i values ∧ (w ≠ .undefined → w' = w) ∧ (¬b.MeetsFrom i values → w' = w) := by
  induction values generalizing w i with
  | nil =>
      have hagrees : b.AgreesFrom w' i [] := nofun
      have hnone : ¬b.MeetsFrom i [] := by simp [MeetsFrom]
      simp only [matchFrom, Option.some.injEq, hagrees, hnone, not_false_eq_true, forall_const, true_and]
      grind
  | cons t rest ih =>
      rw [matchFrom_cons_eq_some_iff, agreesFrom_cons, meetsFrom_cons]
      simp only [matchOne_eq_some_iff, ih]
      constructor
      · rintro ⟨w₁, ⟨hhead, hkept, hquiet⟩, hrest, hkept', hquiet'⟩
        -- A value that met the wildcard has fixed it, and the rest of the loop keeps it.
        refine ⟨⟨fun hheld => ?_, hrest⟩, fun hw => ?_, fun hnone => ?_⟩
        · by_cases hwild : declaredAt b.inputs i = .undefined
          · have hw₁ : w₁ = t := by simpa [fill, hwild] using hhead hheld
            rw [hkept' (hw₁ ▸ hheld.1)]
            exact hhead hheld
          · simpa [fill, hwild] using hhead hheld
        · obtain rfl := hkept hw
          exact hkept' hw
        · rw [not_or] at hnone
          exact (hquiet' hnone.2).trans (hquiet hnone.1)
      · rintro ⟨⟨hhead, hrest⟩, hkept, hquiet⟩
        by_cases hmeets : b.Held i t ∧ declaredAt b.inputs i = .undefined
        · exact ⟨w', ⟨hhead, hkept, fun hnone => absurd hmeets hnone⟩, hrest, fun _ => rfl, fun _ => rfl⟩
        · refine ⟨w, ⟨fun hheld => ?_, fun _ => rfl, fun _ => rfl⟩, hrest, hkept, fun hnone => ?_⟩
          · have hconcrete : declaredAt b.inputs i ≠ .undefined := fun hwild => hmeets ⟨hheld, hwild⟩
            have hagrees := hhead hheld
            rwa [fill, if_neg hconcrete] at hagrees ⊢
          · exact hquiet (not_or.mpr ⟨hmeets, hnone⟩)

/-! ## What a match means -/

/-- With `s` put for the wildcard, every value that is held against its entry has the entry's type. -/
def Agrees (b : TypeBinding) (s : DataType) (actual : List DataType) : Prop :=
  ∀ i t, actual[i]? = some t → b.Held i t → ∃ d, entry? b.inputs i = some d ∧ fill s d = t

/-- Some value is held against the wildcard. -/
def MeetsWildcard (b : TypeBinding) (actual : List DataType) : Prop :=
  ∃ i t, actual[i]? = some t ∧ b.Held i t ∧ entry? b.inputs i = some .undefined

variable {actual : List DataType}

theorem entry?_of_enough (h : Enough b.inputs.length b.variadicInput actual.length)
    (ht : actual[i]? = some t) : entry? b.inputs i = some (declaredAt b.inputs i) :=
  (h.looked_up (List.getElem?_eq_some_iff.mp ht).1).2

theorem agreesFrom_zero (h : Enough b.inputs.length b.variadicInput actual.length) :
    b.AgreesFrom s 0 actual ↔ b.Agrees s actual := by
  unfold AgreesFrom Agrees
  refine forall₂_congr fun k t => imp_congr_right fun ht => ?_
  simp [entry?_of_enough h ht]

theorem meetsFrom_zero (h : Enough b.inputs.length b.variadicInput actual.length) :
    b.MeetsFrom 0 actual ↔ b.MeetsWildcard actual := by
  unfold MeetsFrom MeetsWildcard
  refine exists₂_congr fun k t => and_congr_right fun ht => ?_
  simp [entry?_of_enough h ht]

theorem matchInputs_eq_some_iff {w : DataType} : b.matchInputs actual = some w ↔
    Enough b.inputs.length b.variadicInput actual.length ∧ ∃ s, b.Agrees s actual ∧
      (b.MeetsWildcard actual → w = s) ∧ (¬b.MeetsWildcard actual → w = .undefined) := by
  rw [← arityFits_iff]
  unfold matchInputs
  by_cases hfits : arityFits b.inputs.length b.variadicInput actual.length = true
  · have henough := arityFits_iff.mp hfits
    rw [if_pos hfits, matchFrom_eq_some_iff, ← meetsFrom_zero henough]
    simp only [← agreesFrom_zero henough, hfits, true_and, ne_eq, not_true, false_implies]
    constructor
    · rintro ⟨hagrees, hopen⟩
      exact ⟨w, hagrees, fun _ => rfl, hopen⟩
    · rintro ⟨s, hagrees, hmeets, hopen⟩
      refine ⟨?_, hopen⟩
      by_cases h : b.MeetsFrom 0 actual
      · exact hmeets h ▸ hagrees
      · exact hagrees.congr h
  · simp [hfits]

/-- Where a value meets the wildcard, what is put for the wildcard is known. -/
theorem MeetsWildcard.defined (h : b.MeetsWildcard actual) (hagrees : b.Agrees s actual) :
    s ≠ .undefined := by
  obtain ⟨i, t, ht, hheld, hwild⟩ := h
  obtain ⟨d, hd, hfill⟩ := hagrees i t ht hheld
  obtain rfl := Option.some.inj (hwild.symm.trans hd)
  rw [fill, if_pos rfl] at hfill
  exact hfill ▸ hheld.1

/-- Where no value meets the wildcard, anything can be put for it. -/
theorem Agrees.congr (h : b.Agrees s actual) (hnone : ¬b.MeetsWildcard actual) : b.Agrees w actual := by
  intro i t ht hheld
  obtain ⟨d, hd, hfill⟩ := h i t ht hheld
  have hconcrete : d ≠ .undefined := fun hwild => hnone ⟨i, t, ht, hheld, hwild ▸ hd⟩
  rw [fill, if_neg hconcrete] at hfill
  exact ⟨d, hd, by rw [fill, if_neg hconcrete, hfill]⟩

/-- After a match, what can be put for the wildcard is what it stands for, or anything if it is open. -/
theorem agrees_of_matchInputs (h : b.matchInputs actual = some w) (hs : w ≠ .undefined → s = w) :
    b.Agrees s actual := by
  obtain ⟨-, s', hagrees, hmeets, -⟩ := matchInputs_eq_some_iff.mp h
  by_cases hsome : b.MeetsWildcard actual
  · obtain rfl := hmeets hsome
    exact hs (hsome.defined hagrees) ▸ hagrees
  · exact hagrees.congr hsome

theorem resolveOutputs_eq_some_iff {count : Nat} {w : DataType} {ts : List DataType} :
    b.resolveOutputs count w = some ts ↔
      Enough b.outputs.length b.variadicOutput count ∧ ts.length = count ∧
        ∀ i < count, ∃ d, entry? b.outputs i = some d ∧ ts[i]? = some (fill w d) := by
  rw [← arityFits_iff]
  unfold resolveOutputs
  by_cases hfits : arityFits b.outputs.length b.variadicOutput count = true
  · have henough := arityFits_iff.mp hfits
    rw [if_pos hfits, Option.some.injEq]
    simp only [hfits, true_and]
    constructor
    · rintro rfl
      refine ⟨by simp, fun i hi => ⟨_, (henough.looked_up hi).2, ?_⟩⟩
      simp [List.getElem?_range hi]
    · rintro ⟨hlen, hentries⟩
      refine List.ext_getElem? fun i => ?_
      by_cases hi : i < count
      · obtain ⟨d, hd, hget⟩ := hentries i hi
        obtain rfl := Option.some.inj (hd.symm.trans (henough.looked_up hi).2)
        rw [hget]
        simp [List.getElem?_range hi]
      · rw [List.getElem?_eq_none (by simpa using hi), List.getElem?_eq_none (by omega)]
  · simp [hfits]

/-! ## When there is an answer -/

/-- Enough values, and a type that makes them agree, are all that a match takes. -/
theorem exists_matchInputs (henough : Enough b.inputs.length b.variadicInput actual.length)
    (hagrees : b.Agrees s actual) : ∃ w, b.matchInputs actual = some w ∧
      (b.MeetsWildcard actual → w = s) ∧ (¬b.MeetsWildcard actual → w = .undefined) := by
  by_cases h : b.MeetsWildcard actual
  · exact ⟨s, matchInputs_eq_some_iff.mpr ⟨henough, s, hagrees, fun _ => rfl, fun hn => absurd h hn⟩,
      fun _ => rfl, fun hn => absurd h hn⟩
  · exact ⟨.undefined,
      matchInputs_eq_some_iff.mpr ⟨henough, s, hagrees, fun hs => absurd hs h, fun _ => rfl⟩,
      fun hs => absurd hs h, fun _ => rfl⟩

theorem infer_eq_some_iff {count : Nat} {ts : List DataType} : b.infer actual count = some ts ↔
    ∃ w, b.matchInputs actual = some w ∧ b.resolveOutputs count w = some ts :=
  Option.bind_eq_some_iff

theorem infer_length {count : Nat} {ts : List DataType} (h : b.infer actual count = some ts) :
    ts.length = count := by
  obtain ⟨w, -, hresolved⟩ := infer_eq_some_iff.mp h
  exact (resolveOutputs_eq_some_iff.mp hresolved).2.1

/-- A binding has an answer exactly if it takes the inputs and the outputs are as many as it allows. -/
theorem infer_isSome_iff {count : Nat} : (b.infer actual count).isSome ↔
    (b.matchInputs actual).isSome ∧ Enough b.outputs.length b.variadicOutput count := by
  rw [← arityFits_iff]
  unfold infer resolveOutputs
  cases b.matchInputs actual with
  | none => simp
  | some w => by_cases hfits : arityFits b.outputs.length b.variadicOutput count <;> simp [hfits]

/-- **A binding takes inputs exactly if one type, put for the wildcard, makes them agree**, and then tells
    that type, if any value met the wildcard; the types of its outputs are its entries with that type put
    for the wildcard. No entry is looked up that is not there. -/
theorem match_means (b : TypeBinding) :
    (∀ actual w, b.matchInputs actual = some w ↔
      Enough b.inputs.length b.variadicInput actual.length ∧ ∃ s, b.Agrees s actual ∧
        (b.MeetsWildcard actual → w = s) ∧ (¬b.MeetsWildcard actual → w = .undefined)) ∧
    (∀ count w, (b.resolveOutputs count w).isSome ↔ Enough b.outputs.length b.variadicOutput count) ∧
    (∀ count w ts, b.resolveOutputs count w = some ts ↔
      Enough b.outputs.length b.variadicOutput count ∧ ts.length = count ∧
        ∀ i < count, ∃ d, entry? b.outputs i = some d ∧ ts[i]? = some (fill w d)) ∧
    (∀ count, Enough b.inputs.length b.variadicInput count → ∀ i < count,
      b.inputs[min i (b.inputs.length - 1)]? = some (declaredAt b.inputs i)) ∧
    ∀ count, Enough b.outputs.length b.variadicOutput count → ∀ i < count,
      b.outputs[min i (b.outputs.length - 1)]? = some (declaredAt b.outputs i) := by
  refine ⟨fun _ _ => matchInputs_eq_some_iff, fun count w => ?_, fun _ _ _ => resolveOutputs_eq_some_iff,
    fun _ h _ hi => (h.looked_up hi).1, fun _ h _ hi => (h.looked_up hi).1⟩
  rw [← arityFits_iff]
  unfold resolveOutputs
  split <;> simp_all

end OpGraph.TypeBinding
