import OpGraph.Kernel.Info
import OpGraph.Proofs.Outcome

/-!
# `Proofs.Inquiries` — questions with an answer of variable length

What a kernel asks for is stored or it is not: `KernelInfo.Stores` says which cells are stored for an inquiry
and `KernelInfo.Refuses` why there are none, and there is nothing between the two. Where cells are stored the
two-phase protocol hands them over (`KernelInfo.Gives`): without a buffer it tells their number, a buffer that
is too short it does not touch, and one that is long enough holds them in front and is as before behind. Where
none are stored every call fails alike and touches no buffer. So whoever asks for the number, brings a buffer
of just as many cells and asks again gets what is stored (`KernelInfo.answered_in_two_phases`).
-/

namespace OpGraph

open Outcome

/-! ## Writing into a buffer -/

namespace TwoPhase

variable {α : Type} {cells old : List α}

theorem write_of_short (h : old.length < cells.length) :
    write cells (some old) = (.error (.bufferTooSmall cells.length), some old) := by
  unfold write
  exact if_pos h

theorem write_of_fits (h : cells.length ≤ old.length) :
    write cells (some old) = (.ok cells.length, some (cells ++ old.drop cells.length)) := by
  unfold write
  exact if_neg (Nat.not_lt.mpr h)

end TwoPhase

/-! ## Attributes -/

/-- The value recorded last stands behind no other under its key. -/
theorem lastValue?_eq_some_iff {α β : Type} [DecidableEq α] {key : α} {value : β} {es : List (α × β)} :
    lastValue? key es = some value ↔
      ∃ before after, es = before ++ (key, value) :: after ∧ ∀ e ∈ after, e.1 ≠ key := by
  unfold lastValue?
  constructor
  · intro h
    obtain ⟨e, he, rfl⟩ := Option.map_eq_some_iff.mp h
    obtain ⟨hkey, front, back, hes, hfront⟩ := List.find?_eq_some_iff_append.mp he
    obtain rfl : e.1 = key := by simpa using hkey
    refine ⟨back.reverse, front.reverse, ?_, fun e' he' => ?_⟩
    · rw [← List.reverse_reverse es, hes]
      simp
    · simpa using hfront e' (List.mem_reverse.mp he')
  · rintro ⟨before, after, rfl, hafter⟩
    have hnone : after.reverse.find? (fun e => e.1 = key) = none := by
      rw [List.find?_eq_none]
      intro e he
      simpa using hafter e (List.mem_reverse.mp he)
    rw [List.reverse_append, List.reverse_cons, List.find?_append, List.find?_append, hnone]
    simp

theorem lastValue?_eq_none_iff {α β : Type} [DecidableEq α] {key : α} {es : List (α × β)} :
    lastValue? key es = none ↔ ∀ e ∈ es, e.1 ≠ key := by
  unfold lastValue?
  rw [Option.map_eq_none_iff, List.find?_eq_none]
  simp

namespace KernelInfo

variable {info : KernelInfo} {name expected : String} {v : AttributeValue} {e : OpError}

/-- The attribute of a name holds a value: it was given, and none of that name after it. -/
def Holds (info : KernelInfo) (name : String) (v : AttributeValue) : Prop :=
  ∃ before after, info.attributes = before ++ (name, v) :: after ∧ ∀ a ∈ after, a.1 ≠ name

theorem attributeValue_eq_ok_iff : info.attributeValue name = .ok v ↔ info.Holds name v := by
  refine Iff.trans ?_ lastValue?_eq_some_iff
  unfold attributeValue
  cases lastValue? name info.attributes <;> simp

theorem attributeValue_eq_error_iff : info.attributeValue name = .error e ↔
    (∀ a ∈ info.attributes, a.1 ≠ name) ∧ e = .attributeNotFound name := by
  rw [← lastValue?_eq_none_iff]
  unfold attributeValue
  cases lastValue? name info.attributes <;> simp [eq_comm]

section Reading

variable {α : Type} {read : AttributeValue → Option α}

theorem attributeAs_eq_ok_iff {a : α} : info.attributeAs expected read name = .ok a ↔
    ∃ v, info.Holds name v ∧ read v = some a := by
  unfold attributeAs
  rw [bind_eq_ok]
  refine exists_congr fun v => and_congr attributeValue_eq_ok_iff ?_
  cases read v <;> simp [pure_eq_ok, throw, throwThe, MonadExceptOf.throw]

/-- An attribute that is not there and one of another kind are refused, each in its own way. -/
theorem attributeAs_eq_error_iff : info.attributeAs expected read name = .error e ↔
    ((∀ a ∈ info.attributes, a.1 ≠ name) ∧ e = .attributeNotFound name) ∨
      ∃ v, info.Holds name v ∧ read v = none ∧ e = .attributeType name expected := by
  unfold attributeAs
  rw [← attributeValue_eq_error_iff]
  simp only [← attributeValue_eq_ok_iff]
  cases info.attributeValue name with
  | error e' => simp [bind, Except.bind]
  | ok v =>
      cases h : read v <;>
        simp [bind, Except.bind, pure, Except.pure, throw, throwThe, MonadExceptOf.throw, h, eq_comm]

end Reading

/-! ## Arguments -/

section Arguments

variable {side : Side} {i : Nat}

theorem argument_eq_ok_iff {a : String × DataType} : info.argument side i = .ok a ↔
    (info.arguments side)[i]? = some a := by
  unfold argument
  cases (info.arguments side)[i]? <;> simp

theorem argument_eq_error_iff : info.argument side i = .error e ↔
    (info.arguments side).length ≤ i ∧ e = .indexOutOfBounds side i (info.arguments side).length := by
  rw [← List.getElem?_eq_none_iff]
  unfold argument
  cases (info.arguments side)[i]? <;> simp [eq_comm]

end Arguments

/-! ## What is stored, and why nothing is -/

/-- The cells that are stored for an inquiry: numbers as they are, a text as its bytes and a zero. -/
def Stores (info : KernelInfo) : (q : Inquiry) → List q.Cell → Prop
  | .nodeName, cells => cells = info.node.toUTF8.toList ++ [0]
  | .argumentName side i, cells =>
      ∃ a, (info.arguments side)[i]? = some a ∧ cells = a.1.toUTF8.toList ++ [0]
  | .string name, cells => ∃ s, info.Holds name (.string s) ∧ cells = s.toUTF8.toList ++ [0]
  | .floats name, cells => info.Holds name (.floats cells)
  | .ints name, cells => info.Holds name (.ints cells)

end KernelInfo

/-- The attribute an inquiry is about, and the kind of value it has to hold. -/
def Inquiry.attribute? : Inquiry → Option (String × String)
  | nodeName | argumentName _ _ => none
  | string name => some (name, "a string")
  | floats name => some (name, "a float array")
  | ints name => some (name, "an int array")

namespace KernelInfo

/-- Why there is no answer to an inquiry. -/
inductive Refuses (info : KernelInfo) : Inquiry → OpError → Prop
  /-- There are fewer arguments. -/
  | outside {side : Side} {i : Nat} : (info.arguments side).length ≤ i →
      info.Refuses (.argumentName side i) (.indexOutOfBounds side i (info.arguments side).length)
  /-- No attribute has the name. -/
  | unnamed {q : Inquiry} {name expected : String} : q.attribute? = some (name, expected) →
      (∀ a ∈ info.attributes, a.1 ≠ name) → info.Refuses q (.attributeNotFound name)
  /-- The attribute holds a value of another kind. -/
  | otherKind {q : Inquiry} {name expected : String} {v : AttributeValue} :
      q.attribute? = some (name, expected) → info.Holds name v → (∀ cells, ¬info.Stores q cells) →
      info.Refuses q (.attributeType name expected)

variable {info : KernelInfo} {q : Inquiry} {e : OpError}

/-- An argument's name is there exactly if the argument is. -/
theorem nameCells_eq_ok_iff {side : Side} {i : Nat} {cells : List UInt8} : info.nameCells side i = .ok cells ↔
    ∃ a, (info.arguments side)[i]? = some a ∧ cells = a.1.toUTF8.toList ++ [0] := by
  show (info.argument side i >>= fun a => pure (terminated a.1)) = .ok cells ↔ _
  rw [bind_eq_ok]
  exact exists_congr fun a => and_congr argument_eq_ok_iff (pure_eq_ok.trans eq_comm)

theorem nameCells_eq_error_iff {side : Side} {i : Nat} : info.nameCells side i = .error e ↔
    (info.arguments side).length ≤ i ∧ e = .indexOutOfBounds side i (info.arguments side).length := by
  rw [← argument_eq_error_iff]
  unfold nameCells
  cases info.argument side i <;> simp [bind, Except.bind, pure, Except.pure]

/-- **The answer to an inquiry is what is stored for it.** -/
theorem cells_eq_ok_iff {cells : List q.Cell} : info.cells q = .ok cells ↔ info.Stores q cells := by
  cases q with
  | nodeName =>
      show Except.ok (terminated info.node) = .ok cells ↔ cells = terminated info.node
      rw [Except.ok.injEq, eq_comm]
  | argumentName side i => exact nameCells_eq_ok_iff
  | string name =>
      refine attributeAs_eq_ok_iff.trans ⟨?_, ?_⟩
      · rintro ⟨v, hv, hread⟩
        cases v with
        | string s => exact ⟨s, hv, (Option.some.inj hread).symm⟩
        | _ => cases hread
      · rintro ⟨s, hs, rfl⟩
        exact ⟨.string s, hs, rfl⟩
  | floats name =>
      refine attributeAs_eq_ok_iff.trans ⟨?_, fun h => ⟨.floats cells, h, rfl⟩⟩
      rintro ⟨v, hv, hread⟩
      cases v with
      | floats bits => exact Option.some.inj hread ▸ hv
      | _ => cases hread
  | ints name =>
      refine attributeAs_eq_ok_iff.trans ⟨?_, fun h => ⟨.ints cells, h, rfl⟩⟩
      rintro ⟨v, hv, hread⟩
      cases v with
      | ints ns => exact Option.some.inj hread ▸ hv
      | _ => cases hread

/-- An inquiry that reads an attribute is refused exactly if the attribute cannot be read so. -/
theorem attribute_eq_error_iff {name expected : String} {read : AttributeValue → Option (List q.Cell)}
    (hq : q.attribute? = some (name, expected)) (hcells : info.cells q = info.attributeAs expected read name) :
    info.cells q = .error e ↔ info.Refuses q e := by
  constructor
  · intro h
    rcases attributeAs_eq_error_iff.mp (hcells ▸ h) with ⟨hnone, rfl⟩ | ⟨v, hv, -, rfl⟩
    · exact .unnamed hq hnone
    · refine .otherKind hq hv fun cells hstored => ?_
      rw [cells_eq_ok_iff.mpr hstored] at h
      cases h
  · intro h
    rw [hcells, attributeAs_eq_error_iff]
    cases h with
    | outside => cases hq
    | unnamed hq' hnone =>
        cases hq.symm.trans hq'
        exact Or.inl ⟨hnone, rfl⟩
    | @otherKind _ _ _ v hq' hv hnone =>
        cases hq.symm.trans hq'
        refine Or.inr ⟨v, hv, ?_, rfl⟩
        cases hread : read v with
        | none => rfl
        | some cells =>
            have hok : info.cells q = .ok cells := hcells.trans (attributeAs_eq_ok_iff.mpr ⟨v, hv, hread⟩)
            exact absurd (cells_eq_ok_iff.mp hok) (hnone cells)

/-- **There is no answer to an inquiry exactly if there is a reason.** -/
theorem cells_eq_error_iff : info.cells q = .error e ↔ info.Refuses q e := by
  cases q with
  | nodeName =>
      constructor
      · intro h
        cases h
      · intro h
        cases h with
        | unnamed hq _ => cases hq
        | otherKind hq _ _ => cases hq
  | argumentName side i =>
      refine nameCells_eq_error_iff.trans ⟨?_, ?_⟩
      · rintro ⟨hi, rfl⟩
        exact .outside hi
      · intro h
        cases h with
        | outside hi => exact ⟨hi, rfl⟩
        | unnamed hq _ => cases hq
        | otherKind hq _ _ => cases hq
  | string name => exact attribute_eq_error_iff rfl rfl
  | floats name => exact attribute_eq_error_iff rfl rfl
  | ints name => exact attribute_eq_error_iff rfl rfl

/-! ## The protocol -/

/-- An inquiry hands over given cells: their number without a buffer, and with one the cells if they fit.
    Then the buffer keeps its length and what lies behind the cells; a shorter one keeps everything. -/
structure Gives (info : KernelInfo) (q : Inquiry) (cells : List q.Cell) : Prop where
  number : info.inquire q none = (.ok cells.length, none)
  short : ∀ old, old.length < cells.length →
    info.inquire q (some old) = (.error (.bufferTooSmall cells.length), some old)
  fits : ∀ old, cells.length ≤ old.length → ∃ new, info.inquire q (some old) = (.ok cells.length, some new) ∧
    new.length = old.length ∧ new.take cells.length = cells ∧ new.drop cells.length = old.drop cells.length

theorem Refuses.inquire (h : info.Refuses q e) (buffer : Option (List q.Cell)) :
    info.inquire q buffer = (.error e, buffer) := by
  unfold KernelInfo.inquire
  rw [cells_eq_error_iff.mpr h]
  rfl

theorem Stores.inquire {cells : List q.Cell} (h : info.Stores q cells) (buffer : Option (List q.Cell)) :
    info.inquire q buffer = TwoPhase.write cells buffer := by
  unfold KernelInfo.inquire
  rw [cells_eq_ok_iff.mpr h]
  rfl

theorem Stores.gives {cells : List q.Cell} (h : info.Stores q cells) : info.Gives q cells where
  number := h.inquire none
  short := fun old hold => (h.inquire _).trans (TwoPhase.write_of_short hold)
  fits := by
    intro old hold
    refine ⟨cells ++ old.drop cells.length, (h.inquire _).trans (TwoPhase.write_of_fits hold), ?_, ?_, ?_⟩
    · rw [List.length_append, List.length_drop]
      omega
    · exact List.take_left
    · exact List.drop_left

theorem stores_or_refuses (info : KernelInfo) (q : Inquiry) :
    (∃ cells, info.Stores q cells) ∨ ∃ e, info.Refuses q e := by
  cases h : info.cells q with
  | ok cells => exact Or.inl ⟨cells, cells_eq_ok_iff.mp h⟩
  | error e => exact Or.inr ⟨e, cells_eq_error_iff.mp h⟩

/-- A buffer of just as many cells as are stored holds those afterwards and nothing else. -/
theorem Gives.filled {cells old : List q.Cell} (h : info.Gives q cells) (hold : old.length = cells.length) :
    info.inquire q (some old) = (.ok cells.length, some cells) := by
  obtain ⟨new, hnew, hlen, htake, -⟩ := h.fits old (Nat.le_of_eq hold.symm)
  rw [List.take_of_length_le (Nat.le_of_eq (hlen.trans hold))] at htake
  rw [hnew, htake]

/-- **Answers of variable length are given in two phases.** An inquiry that has no answer fails in the same
    way with every buffer and without one, and leaves the buffer alone. Any other tells its number of cells
    where there is no buffer; one that is too short is left as it was, and one that is long enough holds the
    stored cells in front and is as before behind them. So whoever asks for the number, brings a buffer of just
    as many cells and asks again has what is stored. -/
theorem answered_in_two_phases (info : KernelInfo) (q : Inquiry) :
    ((∃ e, info.Refuses q e ∧ ∀ buffer, info.inquire q buffer = (.error e, buffer)) ∨
      ∃ cells, info.Stores q cells ∧ info.Gives q cells) ∧
    ∀ r, (info.inquire q none).1 = .ok r → ∀ old : List q.Cell, old.length = r →
      ∃ cells, info.Stores q cells ∧ info.inquire q (some old) = (.ok r, some cells) := by
  rcases info.stores_or_refuses q with ⟨cells, hstores⟩ | ⟨e, hrefuses⟩
  · have hgives := hstores.gives
    refine ⟨Or.inr ⟨cells, hstores, hgives⟩, fun r hr old hold => ⟨cells, hstores, ?_⟩⟩
    rw [hgives.number] at hr
    obtain rfl : cells.length = r := Except.ok.inj hr
    exact hgives.filled hold
  · refine ⟨Or.inl ⟨e, hrefuses, hrefuses.inquire⟩, fun r hr => ?_⟩
    rw [hrefuses.inquire] at hr
    cases hr

/-- A node with an attribute that is a text. -/
def scaleNode : KernelInfo := { node := "scale_node", attributes := [("mode", .string "linear")] }

/-- Six letters take seven cells: a buffer of six is left as it was, and one of seven is filled. -/
theorem answered_in_two_phases_linear : (scaleNode.inquire (.string "mode") none).1 = .ok 7 ∧
    scaleNode.inquire (.string "mode") (some (List.replicate 6 255)) =
      (.error (.bufferTooSmall 7), some (List.replicate 6 255)) ∧
    scaleNode.inquire (.string "mode") (some (List.replicate 7 255)) =
      (.ok 7, some [108, 105, 110, 101, 97, 114, 0]) := by
  have hlinear : scaleNode.Stores (.string "mode") [108, 105, 110, 101, 97, 114, 0] :=
    ⟨"linear", ⟨[], [], rfl, by simp⟩, by decide +kernel⟩
  have hcells := cells_eq_ok_iff.mpr hlinear
  have hseven : (scaleNode.inquire (.string "mode") none).1 = .ok 7 := by
    rw [hlinear.inquire]
    rfl
  obtain ⟨hfirst, hagain⟩ := answered_in_two_phases scaleNode (.string "mode")
  refine ⟨hseven, ?_, ?_⟩
  · rcases hfirst with ⟨e, hrefuses, -⟩ | ⟨cells, hstores, hgives⟩
    · rw [cells_eq_error_iff.mpr hrefuses] at hcells
      cases hcells
    · rw [cells_eq_ok_iff.mpr hstores] at hcells
      obtain rfl := Except.ok.inj hcells
      exact hgives.short _ (by decide)
  · obtain ⟨cells, hstores, hfilled⟩ := hagain 7 hseven (List.replicate 7 255) rfl
    rw [cells_eq_ok_iff.mpr hstores] at hcells
    obtain rfl := Except.ok.inj hcells
    exact hfilled

end KernelInfo

end OpGraph
