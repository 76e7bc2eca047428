import OpGraph.Proofs.Matching

/-!
# `Proofs.Learning` — what a binding infers once more types are known

Types may be unknown at first: a graph can leave its inputs open. A type that becomes known adds a value to
those that are held against their entries and takes none away. So whatever made the values agree later made
them agree before (`Agrees.of_learned`), a binding that was refused stays refused, and the types of outputs
only become known. The other way round, what was learned does not get in the way if it is what the binding
says at its position (`Agrees.of_filled`).
-/

namespace OpGraph.TypeBinding

/-- Some types that were unknown before have become known, and nothing else has changed. -/
structure Learned (before after : List DataType) : Prop where
  length : after.length = before.length
  known : ∀ (i : Nat) (t : DataType), before[i]? = some t → t ≠ .undefined → after[i]? = some t

/-- What was learned is what the binding says: where a type was unknown before and the value is now held
    against an entry, it has the type of that entry, with `s` put for the wildcard. -/
def Filled (b : TypeBinding) (s : DataType) (before after : List DataType) : Prop :=
  ∀ i t, before[i]? = some .undefined → after[i]? = some t → b.Held i t →
    ∃ d, entry? b.inputs i = some d ∧ fill s d = t

variable {b : TypeBinding} {before after : List DataType} {s w : DataType} {count : Nat}

/-! ## Inputs -/

theorem Agrees.of_learned (h : Learned before after) (hagrees : b.Agrees s after) : b.Agrees s before :=
  fun i t ht hheld => hagrees i t (h.known i t ht hheld.1) hheld

theorem MeetsWildcard.learned (h : Learned before after) (hmeets : b.MeetsWildcard before) :
    b.MeetsWildcard after := by
  obtain ⟨i, t, ht, hheld, hwild⟩ := hmeets
  exact ⟨i, t, h.known i t ht hheld.1, hheld, hwild⟩

/-- **A binding that takes the inputs later takes them before**, and what it tells of the wildcard before is
    nothing, or the same. -/
theorem matchInputs_before (h : Learned before after) {later : DataType}
    (hlater : b.matchInputs after = some later) :
    ∃ w, b.matchInputs before = some w ∧ (w = .undefined ∨ w = later) := by
  obtain ⟨henough, s, hagrees, hmeets, -⟩ := matchInputs_eq_some_iff.mp hlater
  rw [h.length] at henough
  obtain ⟨w, hmatch, hsome, hnone⟩ := exists_matchInputs henough (hagrees.of_learned h)
  refine ⟨w, hmatch, ?_⟩
  by_cases hbefore : b.MeetsWildcard before
  · exact .inr ((hsome hbefore).trans (hmeets (hbefore.learned h)).symm)
  · exact .inl (hnone hbefore)

/-- What was learned agrees where it is what the binding says. -/
theorem Agrees.of_filled (h : Learned before after) (hagrees : b.Agrees s before)
    (hfilled : b.Filled s before after) : b.Agrees s after := by
  intro i t ht hheld
  have hlt : i < before.length := h.length ▸ (List.getElem?_eq_some_iff.mp ht).1
  have hold : before[i]? = some before[i] := List.getElem?_eq_getElem hlt
  by_cases hunknown : before[i] = .undefined
  · exact hfilled i t (hunknown ▸ hold) ht hheld
  · obtain rfl : before[i] = t := Option.some.inj ((h.known i _ hold hunknown).symm.trans ht)
    exact hagrees i _ hold hheld

/-! ## Outputs -/

/-- Types of outputs become known with the wildcard. -/
theorem resolveOutputs_before {later : DataType} {ts' : List DataType} (hw : w = .undefined ∨ w = later)
    (hlater : b.resolveOutputs count later = some ts') :
    ∃ ts, b.resolveOutputs count w = some ts ∧ Learned ts ts' := by
  unfold resolveOutputs at hlater ⊢
  split at hlater
  next hfits =>
    obtain rfl := Option.some.inj hlater
    refine ⟨_, if_pos hfits, by simp, fun i t ht hknown => ?_⟩
    rw [List.getElem?_map] at ht ⊢
    obtain ⟨j, hj, rfl⟩ := Option.map_eq_some_iff.mp ht
    rw [hj, Option.map_some, Option.some.injEq]
    unfold fill at hknown ⊢
    grind
  · cases hlater

/-! ## Inference -/

/-- **What is inferred later was inferred before, with some types still unknown.** -/
theorem infer_before (h : Learned before after) {ts' : List DataType}
    (hlater : b.infer after count = some ts') : ∃ ts, b.infer before count = some ts ∧ Learned ts ts' := by
  obtain ⟨later, hmatch', hresolved'⟩ := infer_eq_some_iff.mp hlater
  obtain ⟨w, hmatch, hw⟩ := matchInputs_before h hmatch'
  obtain ⟨ts, hresolved, hlearned⟩ := resolveOutputs_before hw hresolved'
  exact ⟨ts, infer_eq_some_iff.mpr ⟨w, hmatch, hresolved⟩, hlearned⟩

/-- **Learning never contradicts what was inferred.** Types inferred later are those inferred before, with
    some that were unknown now known; so a binding that is refused before is refused later. And it keeps its
    answer if what was learned is what it says, with one type for the wildcard, which is the one it stood
    for if there was one. -/
theorem learning_never_contradicts (h : Learned before after) (count : Nat) :
    (∀ ts', b.infer after count = some ts' → ∃ ts, b.infer before count = some ts ∧ Learned ts ts') ∧
      (b.matchInputs before = none → b.matchInputs after = none) ∧
      (b.infer before count = none → b.infer after count = none) ∧
      ∀ s, (b.infer before count).isSome →
        (∀ w, b.matchInputs before = some w → w ≠ .undefined → s = w) → b.Filled s before after →
        (b.infer after count).isSome := by
  refine ⟨fun ts' => infer_before h, fun hnone => ?_, fun hnone => ?_, fun s hsome hkept hfilled => ?_⟩
  · refine Option.eq_none_iff_forall_ne_some.mpr fun later hlater => ?_
    obtain ⟨w, hmatch, -⟩ := matchInputs_before h hlater
    cases hnone.symm.trans hmatch
  · refine Option.eq_none_iff_forall_ne_some.mpr fun ts' hts' => ?_
    obtain ⟨ts, hts, -⟩ := infer_before h hts'
    cases hnone.symm.trans hts
  · obtain ⟨hmatches, houtputs⟩ := infer_isSome_iff.mp hsome
    obtain ⟨w, hmatch⟩ := Option.isSome_iff_exists.mp hmatches
    have henough : Enough b.inputs.length b.variadicInput after.length :=
      h.length.symm ▸ (matchInputs_eq_some_iff.mp hmatch).1
    have hagrees : b.Agrees s after := (agrees_of_matchInputs hmatch (hkept w hmatch)).of_filled h hfilled
    obtain ⟨later, hlater, -⟩ := exists_matchInputs henough hagrees
    exact infer_isSome_iff.mpr ⟨Option.isSome_iff_exists.mpr ⟨later, hlater⟩, houtputs⟩

/-- A binding with two wildcards, the second of which repeats with any types. -/
def paired : TypeBinding :=
  { inputs := [.undefined, .int64, .undefined], outputs := [.undefined, .bool]
    variadicInput := some ⟨1, false⟩ }

/-- One more input becomes known and fixes the wildcard; another is behind the end and not looked at. -/
theorem learning_never_contradicts_paired :
    let before : List DataType := [.undefined, .int64, .undefined, .undefined]
    let after : List DataType := [.float32, .int64, .undefined, .uint8]
    Learned before after ∧ paired.Filled .float32 before after ∧
      paired.infer after 2 = some [.float32, .bool] ∧
      (∃ ts, paired.infer before 2 = some ts ∧ Learned ts [.float32, .bool]) ∧
      (paired.infer after 2).isSome := by
  intro before after
  have hlearned : Learned before after := by
    refine ⟨rfl, fun i t ht hknown => ?_⟩
    rcases i with _ | _ | _ | _ | i <;> simp_all [before, after]
  have hfilled : paired.Filled .float32 before after := by
    intro i t _ ht hheld
    rcases i with _ | _ | _ | _ | i
    · exact ⟨_, rfl, Option.some.inj ht⟩
    · exact ⟨_, rfl, Option.some.inj ht⟩
    · exact absurd (Option.some.inj ht).symm hheld.1
    · rcases hheld.2 with hlt | hsame
      · exact absurd hlt (by decide)
      · exact absurd (hsame _ rfl) (by decide)
    · cases ht
  have hopen : ∀ w, paired.matchInputs before = some w → w ≠ .undefined → DataType.float32 = w := by
    rintro _ ⟨⟩ hknown
    exact absurd rfl hknown
  obtain ⟨hbefore, -, -, hafter⟩ := learning_never_contradicts (b := paired) hlearned 2
  exact ⟨hlearned, hfilled, rfl, hbefore _ rfl, hafter _ rfl hopen hfilled⟩

end OpGraph.TypeBinding
