import Mathlib.Data.List.Induction
import OpGraph.Proofs.Outputs
import OpGraph.Proofs.Storage

/-!
# `Proofs.Filling` — outputs filled call by call

A kernel fills its outputs by calls: it has one allocated as planned or with a type of its own, hands a value
over, or writes an element of what is there. `OutputCall.Accepted` says which calls succeed and with what,
`OutputCall.Refused` which fail and why, and there is nothing between the two. A call that succeeds puts one
whole tensor in one place, and a call that fails does nothing, so after any calls each place holds what the
last call that succeeded there put, in the type it was planned with (`KernelContext.outputs_filled`).
-/

namespace OpGraph

open Outcome

/-! ## Writing an element -/

namespace KernelContext

/-- Write one element of the value at output `i`, which must be of type `d`. -/
def writeOutput (c : KernelContext) (i : Nat) (d : DataType) (j : Nat) (x : Element d) :
    Except OpError KernelContext :=
  match c.output? i with
  | none => .error (.invalidArgument (.notProduced i))
  | some t =>
      match t.write d j x with
      | .ok t' => .ok (c.place i t')
      | .error e => .error (.tensor e)

/-! ## Checks -/

variable {c : KernelContext} {i : Nat} {p : DataType}

theorem plannedType_eq (h : c.planned[i]? = some p) : c.plannedType i = .ok p := by
  unfold plannedType
  rw [h]

theorem plannedType_outside (h : c.planned.length ≤ i) :
    c.plannedType i = .error (.indexOutOfBounds .output i c.planned.length) := by
  unfold plannedType
  rw [List.getElem?_eq_none h]

theorem checkOutput_eq (h : c.planned[i]? = some p) (d : DataType) : c.checkOutput i d =
    if p.isDefined ∧ p ≠ d then .error (.invalidArgument (.offPlan i p d)) else .ok () := by
  unfold checkOutput
  rw [plannedType_eq h]
  by_cases hbad : p.isDefined ∧ p ≠ d
  · simp [bind, Except.bind, hbad]
    rfl
  · rw [if_neg hbad]
    simp [bind, Except.bind, hbad]
    rfl

theorem checkOutput_outside (h : c.planned.length ≤ i) (d : DataType) :
    c.checkOutput i d = .error (.indexOutOfBounds .output i c.planned.length) := by
  unfold checkOutput
  rw [plannedType_outside h]
  rfl

theorem checkOutput_of_fits (h : c.planned[i]? = some p) {d : DataType} (hfits : p.isDefined → p = d) :
    c.checkOutput i d = .ok () := by
  rw [checkOutput_eq h, if_neg fun hbad => hbad.2 (hfits hbad.1)]

theorem checkOutput_of_off_plan (h : c.planned[i]? = some p) {d : DataType} (hdef : p.isDefined)
    (hne : p ≠ d) : c.checkOutput i d = .error (.invalidArgument (.offPlan i p d)) := by
  rw [checkOutput_eq h, if_pos ⟨hdef, hne⟩]

/-! What fails the check fails the operation, and what passes it goes on. -/

section Checked

variable {d : DataType} {shape : Shape} {t : Tensor} {e : OpError}

theorem setOutput_of_error (h : c.checkOutput i t.dtype = .error e) : c.setOutput i t = .error e := by
  unfold setOutput
  rw [h]
  rfl

theorem setOutput_of_ok (h : c.checkOutput i t.dtype = .ok ()) : c.setOutput i t = .ok (c.place i t) := by
  unfold setOutput
  rw [h]
  rfl

theorem allocate_of_error (h : c.checkOutput i d = .error e) : c.allocate i d shape = .error e := by
  unfold allocate
  rw [h]
  rfl

theorem allocate_of_ok (h : c.checkOutput i d = .ok ()) : c.allocate i d shape =
    match Tensor.zeros d shape with
    | .ok t => .ok (c.place i t)
    | .error e => .error (.tensor e) := by
  unfold allocate
  rw [h]
  rfl

theorem allocatePlanned_of_outside (h : c.planned.length ≤ i) :
    c.allocatePlanned i shape = .error (.indexOutOfBounds .output i c.planned.length) := by
  unfold allocatePlanned
  rw [plannedType_outside h]
  rfl

theorem allocatePlanned_eq (h : c.planned[i]? = some p) : c.allocatePlanned i shape =
    if p.isDefined then c.allocate i p shape else .error (.invalidArgument (.unplanned i)) := by
  unfold allocatePlanned
  rw [plannedType_eq h]
  rfl

end Checked

end KernelContext

/-! ## Calls -/

/-- What a kernel may do about its outputs. -/
inductive OutputCall where
  /-- Allocate as planned. -/
  | output (i : Nat) (shape : Shape)
  | outputTyped (i : Nat) (d : DataType) (shape : Shape)
  /-- Hand a value over. -/
  | setOutput (i : Nat) (t : Tensor)
  /-- Write an element of what is there, as one of type `d`. -/
  | write (i : Nat) (d : DataType) (j : Nat) (x : Element d)

namespace OutputCall

/-- The output a call is about. -/
def index : OutputCall → Nat
  | output i _ => i
  | outputTyped i _ _ => i
  | setOutput i _ => i
  | write i _ _ _ => i

/-- The type a call asks an output to have, where it says so itself. -/
def type? : OutputCall → Option DataType
  | outputTyped _ d _ => some d
  | setOutput _ t => some t.dtype
  | _ => none

/-- Whether a call makes an output; otherwise it writes to one that was made. -/
def makes : OutputCall → Bool
  | write .. => false
  | _ => true

/-- What the call does to a context. -/
def apply : OutputCall → KernelContext → Except OpError KernelContext
  | output i shape, c => c.allocatePlanned i shape
  | outputTyped i d shape, c => c.allocate i d shape
  | setOutput i t, c => c.setOutput i t
  | write i d j x, c => c.writeOutput i d j x

/-- The call as a step of a kernel. -/
def act (a : OutputCall) : KernelM Unit := KernelM.update a.apply

/-- Calls that succeed, and what they put: zeros of the shape, the value, or the value there with one element
    written over. -/
inductive Accepted (c : KernelContext) : OutputCall → Tensor → Prop
  | output {i : Nat} {d : DataType} {shape : Shape} {t : Tensor} : c.planned[i]? = some d →
      Tensor.zeros d shape = .ok t → Accepted c (output i shape) t
  | outputTyped {i : Nat} {p d : DataType} {shape : Shape} {t : Tensor} : c.planned[i]? = some p →
      (p.isDefined → p = d) → Tensor.zeros d shape = .ok t → Accepted c (outputTyped i d shape) t
  | setOutput {i : Nat} {p : DataType} {t : Tensor} : c.planned[i]? = some p →
      (p.isDefined → p = t.dtype) → Accepted c (setOutput i t) t
  | write {i j : Nat} {d : DataType} {x : Element d} {t t' : Tensor} : c.output? i = some t →
      t.write d j x = .ok t' → Accepted c (write i d j x) t'

/-- Calls that fail, and why. -/
inductive Refused (c : KernelContext) : OutputCall → OpError → Prop
  /-- There is no such output. -/
  | outside {a : OutputCall} : a.makes → c.planned.length ≤ a.index →
      Refused c a (.indexOutOfBounds .output a.index c.planned.length)
  /-- The output is planned with another type. -/
  | offPlan {a : OutputCall} {p d : DataType} : a.type? = some d → c.planned[a.index]? = some p →
      p.isDefined → p ≠ d → Refused c a (.invalidArgument (.offPlan a.index p d))
  /-- The output has no planned type. -/
  | unplanned {i : Nat} {shape : Shape} : c.planned[i]? = some .undefined →
      Refused c (output i shape) (.invalidArgument (.unplanned i))
  /-- A tensor of no type was asked for. -/
  | undefined {i : Nat} {shape : Shape} : c.planned[i]? = some .undefined →
      Refused c (outputTyped i .undefined shape) (.tensor .undefinedType)
  /-- The sizes of the shape do not fit. -/
  | unfit {i : Nat} {d : DataType} {shape : Shape} {e : TensorError} : c.planned[i]? = some d →
      d.isDefined → Tensor.zeros d shape = .error e → Refused c (output i shape) (.tensor e)
  | unfitTyped {i : Nat} {p d : DataType} {shape : Shape} {e : TensorError} : c.planned[i]? = some p →
      (p.isDefined → p = d) → d.isDefined → Tensor.zeros d shape = .error e →
      Refused c (outputTyped i d shape) (.tensor e)
  /-- There is nothing to write to. -/
  | missing {i j : Nat} {d : DataType} {x : Element d} : c.output? i = none →
      Refused c (write i d j x) (.invalidArgument (.notProduced i))
  /-- There is no such element, or it is of another type. -/
  | unwritten {i j : Nat} {d : DataType} {x : Element d} {t : Tensor} {e : TensorError} :
      c.output? i = some t → t.write d j x = .error e → Refused c (write i d j x) (.tensor e)

variable {c : KernelContext} {a : OutputCall} {t u : Tensor} {e : OpError}

/-- **A call that succeeds puts its tensor in place and changes nothing else.** -/
theorem Accepted.apply_eq (h : a.Accepted c t) : a.apply c = .ok (c.place a.index t) := by
  cases h with
  | @output i d shape _ hp hz =>
      show c.allocatePlanned i shape = _
      rw [KernelContext.allocatePlanned_eq hp, if_pos ((Tensor.zeros_eq_ok.mp hz).1),
        KernelContext.allocate_of_ok (KernelContext.checkOutput_of_fits hp fun _ => rfl), hz]
      rfl
  | @outputTyped i p d shape _ hp hfits hz =>
      show c.allocate i d shape = _
      rw [KernelContext.allocate_of_ok (KernelContext.checkOutput_of_fits hp hfits), hz]
      rfl
  | setOutput hp hfits => exact KernelContext.setOutput_of_ok (KernelContext.checkOutput_of_fits hp hfits)
  | @write i j d x t₀ _ ht hwrite =>
      show c.writeOutput i d j x = _
      unfold KernelContext.writeOutput
      rw [ht]
      dsimp only
      rw [hwrite]
      rfl

/-- **A call that fails does nothing.** -/
theorem Refused.apply_eq (h : a.Refused c e) : a.apply c = .error e := by
  cases h with
  | outside hmakes hi =>
      cases a with
      | output i shape => exact KernelContext.allocatePlanned_of_outside hi
      | outputTyped i d shape => exact KernelContext.allocate_of_error (KernelContext.checkOutput_outside hi d)
      | setOutput i t => exact KernelContext.setOutput_of_error (KernelContext.checkOutput_outside hi t.dtype)
      | write i d j x => cases hmakes
  | offPlan htype hp hdef hne =>
      cases a with
      | outputTyped i d shape =>
          obtain rfl := Option.some.inj htype
          exact KernelContext.allocate_of_error (KernelContext.checkOutput_of_off_plan hp hdef hne)
      | setOutput i t =>
          obtain rfl := Option.some.inj htype
          exact KernelContext.setOutput_of_error (KernelContext.checkOutput_of_off_plan hp hdef hne)
      | output => cases htype
      | write => cases htype
  | @unplanned i shape hp =>
      show c.allocatePlanned i shape = _
      rw [KernelContext.allocatePlanned_eq hp]
      rfl
  | @undefined i shape hp =>
      show c.allocate i .undefined shape = _
      rw [KernelContext.allocate_of_ok (KernelContext.checkOutput_of_fits hp fun _ => rfl)]
      rfl
  | @unfit i d shape _ hp hd hz =>
      show c.allocatePlanned i shape = _
      rw [KernelContext.allocatePlanned_eq hp, if_pos hd,
        KernelContext.allocate_of_ok (KernelContext.checkOutput_of_fits hp fun _ => rfl), hz]
  | @unfitTyped i p d shape _ hp hfits hd hz =>
      show c.allocate i d shape = _
      rw [KernelContext.allocate_of_ok (KernelContext.checkOutput_of_fits hp hfits), hz]
  | @missing i j d x ht =>
      show c.writeOutput i d j x = _
      unfold KernelContext.writeOutput
      rw [ht]
  | @unwritten i j d x t₀ e₀ ht hwrite =>
      show c.writeOutput i d j x = _
      unfold KernelContext.writeOutput
      rw [ht]
      dsimp only
      rw [hwrite]

/-- A call succeeds or fails for one of the reasons. -/
theorem accepted_or_refused (c : KernelContext) (a : OutputCall) :
    (∃ t, a.Accepted c t) ∨ ∃ e, a.Refused c e := by
  cases a with
  | output i shape =>
      cases hp : c.planned[i]? with
      | none => exact Or.inr ⟨_, .outside rfl (List.getElem?_eq_none_iff.mp hp)⟩
      | some d =>
          by_cases hd : d = .undefined
          · exact Or.inr ⟨_, .unplanned (hd ▸ hp)⟩
          · cases hz : Tensor.zeros d shape with
            | ok t => exact Or.inl ⟨t, .output hp hz⟩
            | error e => exact Or.inr ⟨_, .unfit hp (DataType.isDefined_iff.mpr hd) hz⟩
  | outputTyped i d shape =>
      cases hp : c.planned[i]? with
      | none => exact Or.inr ⟨_, .outside rfl (List.getElem?_eq_none_iff.mp hp)⟩
      | some p =>
          by_cases hfits : p.isDefined → p = d
          · by_cases hd : d = .undefined
            · subst hd
              have hundefined : p = .undefined := Classical.byContradiction fun hne =>
                hne (hfits (DataType.isDefined_iff.mpr hne))
              exact Or.inr ⟨_, .undefined (hundefined ▸ hp)⟩
            · cases hz : Tensor.zeros d shape with
              | ok t => exact Or.inl ⟨t, .outputTyped hp hfits hz⟩
              | error e => exact Or.inr ⟨_, .unfitTyped hp hfits (DataType.isDefined_iff.mpr hd) hz⟩
          · obtain ⟨hdef, hne⟩ := Classical.not_imp.mp hfits
            exact Or.inr ⟨_, .offPlan rfl hp hdef hne⟩
  | setOutput i t =>
      cases hp : c.planned[i]? with
      | none => exact Or.inr ⟨_, .outside rfl (List.getElem?_eq_none_iff.mp hp)⟩
      | some p =>
          by_cases hfits : p.isDefined → p = t.dtype
          · exact Or.inl ⟨_, .setOutput hp hfits⟩
          · obtain ⟨hdef, hne⟩ := Classical.not_imp.mp hfits
            exact Or.inr ⟨_, .offPlan rfl hp hdef hne⟩
  | write i d j x =>
      cases ht : c.output? i with
      | none => exact Or.inr ⟨_, .missing ht⟩
      | some t =>
          cases hwrite : t.write d j x with
          | ok t' => exact Or.inl ⟨_, .write ht hwrite⟩
          | error e => exact Or.inr ⟨_, .unwritten ht hwrite⟩

/-- A call that succeeds ends well and leaves the context with its tensor in place. -/
theorem Accepted.start (h : a.Accepted c t) : KernelM.start a.act c = (.ok (), c.place a.index t) := by
  unfold act
  rw [KernelM.start_update, h.apply_eq]

/-- A call that fails ends with its error and leaves the context as it was. -/
theorem Refused.start (h : a.Refused c e) : KernelM.start a.act c = (.error (.of e), c) := by
  unfold act
  rw [KernelM.start_update, h.apply_eq]

end OutputCall

/-! ## Calls one after the other -/

namespace KernelContext

variable {c c₀ : KernelContext} {planned : List DataType} {a : OutputCall} {calls more : List OutputCall}
  {i : Nat} {t : Tensor} {e : OpError}

/-- The context after some calls, however each of them ended. -/
def after (c : KernelContext) (calls : List OutputCall) : KernelContext :=
  calls.foldl (fun c a => (KernelM.start a.act c).2) c

theorem after_concat : c.after (calls ++ [a]) = (KernelM.start a.act (c.after calls)).2 := by
  unfold after
  rw [List.foldl_append]
  rfl

theorem after_accepted (h : a.Accepted (c.after calls) t) :
    c.after (calls ++ [a]) = (c.after calls).place a.index t := by
  rw [after_concat, h.start]

theorem after_refused (h : a.Refused (c.after calls) e) : c.after (calls ++ [a]) = c.after calls := by
  rw [after_concat, h.start]

/-- There is a place for each planned output, and what is there came about as tensors do and has the type
    that was planned. -/
structure Filled (planned : List DataType) (c : KernelContext) : Prop where
  plan : c.planned = planned
  length : c.outputs.length = planned.length
  outputs : ∀ i t, c.output? i = some t → t.Made ∧ ∀ d, planned[i]? = some d → d.isDefined → t.dtype = d

theorem Filled.start (inputs : List (Option Tensor)) (planned : List DataType) (stream : Option Stream)
    (logger : Option Logger) : (start inputs planned stream logger).Filled planned where
  plan := rfl
  length := List.length_replicate
  outputs i t h := by
    rw [output?_start] at h
    cases h

/-- Only places of planned outputs are filled. -/
theorem Filled.lt_of_accepted (h : c.Filled planned) (ha : a.Accepted c t) : a.index < c.outputs.length := by
  have hplanned : ∀ {p : DataType}, c.planned[a.index]? = some p → a.index < c.outputs.length := by
    intro p hp
    rw [h.length, ← h.plan]
    exact (List.getElem?_eq_some_iff.mp hp).1
  cases ha with
  | output hp _ => exact hplanned hp
  | outputTyped hp _ _ => exact hplanned hp
  | setOutput hp _ => exact hplanned hp
  | write ht _ => exact (List.getElem?_eq_some_iff.mp (Option.join_eq_some_iff.mp ht)).1

/-- What a call puts came about as tensors do, if what it hands over did, and has the planned type. -/
theorem Filled.fits_of_accepted (h : c.Filled planned) (hmade : ∀ i t, a = .setOutput i t → t.Made)
    (ha : a.Accepted c t) : t.Made ∧ ∀ d, planned[a.index]? = some d → d.isDefined → t.dtype = d := by
  have hsame : ∀ {p d : DataType}, c.planned[a.index]? = some p → planned[a.index]? = some d → p = d := by
    intro p d hp hd
    rw [h.plan] at hp
    exact Option.some.inj (hp.symm.trans hd)
  cases ha with
  | output hp hz =>
      refine ⟨.zeros hz, fun d' hd' _ => ?_⟩
      obtain ⟨-, -, rfl⟩ := Tensor.zeros_eq_ok.mp hz
      exact hsame hp hd'
  | outputTyped hp hfits hz =>
      refine ⟨.zeros hz, fun d' hd' hdef => ?_⟩
      obtain rfl := hsame hp hd'
      obtain ⟨-, -, rfl⟩ := Tensor.zeros_eq_ok.mp hz
      exact (hfits hdef).symm
  | setOutput hp hfits =>
      refine ⟨hmade _ _ rfl, fun d' hd' hdef => ?_⟩
      obtain rfl := hsame hp hd'
      exact (hfits hdef).symm
  | write ht hwrite =>
      obtain ⟨hmade₀, htype⟩ := h.outputs _ _ ht
      obtain ⟨xs, -, -, rfl⟩ := Tensor.write_eq_ok hwrite
      exact ⟨hmade₀.write hwrite, htype⟩

/-- **A call keeps outputs whole and of the planned types.** -/
theorem Filled.step (h : (c.after calls).Filled planned) (hmade : ∀ i t, a = .setOutput i t → t.Made) :
    (c.after (calls ++ [a])).Filled planned := by
  rcases OutputCall.accepted_or_refused (c.after calls) a with ⟨t, ha⟩ | ⟨e, ha⟩
  · have hi := h.lt_of_accepted ha
    obtain ⟨hmade', htype⟩ := h.fits_of_accepted hmade ha
    rw [after_accepted ha]
    refine ⟨h.plan, by simpa [place] using h.length, fun j u hj => ?_⟩
    rw [output?_place hi] at hj
    split at hj
    next heq =>
      obtain rfl := Option.some.inj hj
      exact heq ▸ ⟨hmade', htype⟩
    · exact h.outputs j u hj
  · rw [after_refused ha]
    exact h

theorem Filled.after (h : c.Filled planned) (hmade : ∀ i t, .setOutput i t ∈ calls → t.Made) :
    (c.after calls).Filled planned := by
  induction calls using List.reverseRecOn with
  | nil => exact h
  | append_singleton calls a ih =>
      refine (ih fun i t hmem => hmade i t (List.mem_append_left _ hmem)).step fun i t heq => hmade i t ?_
      exact heq ▸ List.mem_append_right _ (List.mem_singleton_self _)

/-! ## What was put last -/

/-- No call on output `i` succeeds as the calls go by. -/
def Untouched (c : KernelContext) : List OutputCall → Nat → Prop
  | [], _ => True
  | a :: rest, i => (a.index = i → ∃ e, a.Refused c e) ∧ Untouched (c.after [a]) rest i

/-- A call on output `i` puts the tensor, and no call behind it succeeds there. -/
def LastPut (c : KernelContext) (calls : List OutputCall) (i : Nat) (t : Tensor) : Prop :=
  ∃ before a rest, calls = before ++ a :: rest ∧ a.index = i ∧ a.Accepted (c.after before) t ∧
    (c.after (before ++ [a])).Untouched rest i

theorem untouched_concat : c.Untouched (calls ++ [a]) i ↔
    c.Untouched calls i ∧ (a.index = i → ∃ e, a.Refused (c.after calls) e) := by
  induction calls generalizing c with
  | nil => simp [Untouched, after]
  | cons b rest ih =>
      rw [List.cons_append, Untouched, ih, Untouched, and_assoc]
      rfl

/-- A call that does not succeed there leaves what was put last at a place the last. -/
theorem LastPut.concat (h : c.LastPut calls i t) (ha : a.index = i → ∃ e, a.Refused (c.after calls) e) :
    c.LastPut (calls ++ [a]) i t := by
  obtain ⟨before, b, rest, rfl, hi, hb, hrest⟩ := h
  refine ⟨before, b, rest ++ [a], by simp, hi, hb, untouched_concat.mpr ⟨hrest, fun heq => ?_⟩⟩
  obtain ⟨e, he⟩ := ha heq
  refine ⟨e, ?_⟩
  unfold after at he ⊢
  rw [← List.foldl_append, List.append_assoc]
  exact he

/-- **Each place holds what was put there last, and nothing where nothing was put.** -/
theorem output?_after (h : c₀.Filled planned) (hnone : c₀.output? i = none)
    (hmade : ∀ i t, .setOutput i t ∈ calls → t.Made) :
    ((c₀.after calls).output? i = none ∧ c₀.Untouched calls i) ∨
      ∃ t, (c₀.after calls).output? i = some t ∧ c₀.LastPut calls i t := by
  induction calls using List.reverseRecOn with
  | nil => exact Or.inl ⟨hnone, trivial⟩
  | append_singleton calls a ih =>
      have hmade' : ∀ i t, .setOutput i t ∈ calls → t.Made :=
        fun i t hmem => hmade i t (List.mem_append_left _ hmem)
      -- Where the call did not succeed, all is as it was.
      have hkept : (c₀.after (calls ++ [a])).output? i = (c₀.after calls).output? i →
          (a.index = i → ∃ e, a.Refused (c₀.after calls) e) →
          ((c₀.after (calls ++ [a])).output? i = none ∧ c₀.Untouched (calls ++ [a]) i) ∨
            ∃ t, (c₀.after (calls ++ [a])).output? i = some t ∧ c₀.LastPut (calls ++ [a]) i t := by
        intro hsame ha
        rw [hsame]
        rcases ih hmade' with ⟨hout, huntouched⟩ | ⟨t, hout, hlast⟩
        · exact Or.inl ⟨hout, untouched_concat.mpr ⟨huntouched, ha⟩⟩
        · exact Or.inr ⟨t, hout, hlast.concat ha⟩
      rcases OutputCall.accepted_or_refused (c₀.after calls) a with ⟨t, ha⟩ | ⟨e, ha⟩
      · have hplace := output?_place (t := t) ((h.after hmade').lt_of_accepted ha) i
        rw [← after_accepted ha] at hplace
        by_cases hi : a.index = i
        · rw [if_pos hi] at hplace
          exact Or.inr ⟨t, hplace, calls, a, [], rfl, hi, ha, trivial⟩
        · rw [if_neg hi] at hplace
          exact hkept hplace fun heq => absurd heq hi
      · exact hkept (by rw [after_refused ha]) fun _ => ⟨e, ha⟩

/-- **Outputs are filled call by call, and each call is all or nothing.** After any calls there is a place
    for each planned output. What is there is a whole tensor of a known type, the planned one where that is
    known: the one that the last call to succeed there put. One more call succeeds and puts its tensor in its
    place, whatever was there, and leaves all other places alone; or it fails and leaves everything as it
    was. -/
theorem outputs_filled {inputs : List (Option Tensor)} {stream : Option Stream} {logger : Option Logger}
    (h₀ : c₀ = start inputs planned stream logger) (hc : c = c₀.after calls)
    (hmade : ∀ i t, .setOutput i t ∈ calls → t.Made) :
    c.outputs.length = planned.length ∧
    (∀ i t, c.output? i = some t → t.Made ∧ t.dtype.isDefined ∧
      ∀ d, planned[i]? = some d → d.isDefined → t.dtype = d) ∧
    (∀ a : OutputCall,
      (∃ t, a.Accepted c t ∧ KernelM.start a.act c = (.ok (), c.place a.index t) ∧
        ∀ i, (c.place a.index t).output? i = if a.index = i then some t else c.output? i) ∨
      ∃ e, a.Refused c e ∧ KernelM.start a.act c = (.error (.of e), c)) ∧
    ∀ i, (c.output? i = none ∧ c₀.Untouched calls i) ∨ ∃ t, c.output? i = some t ∧ c₀.LastPut calls i t := by
  subst hc h₀
  have hstart := Filled.start inputs planned stream logger
  have hfilled := hstart.after hmade
  refine ⟨hfilled.length, fun i t ht => ?_, fun a => ?_, fun i => ?_⟩
  · obtain ⟨hmade', htype⟩ := hfilled.outputs i t ht
    exact ⟨hmade', hmade'.tight.defined, htype⟩
  · rcases OutputCall.accepted_or_refused _ a with ⟨t, ha⟩ | ⟨e, ha⟩
    · exact Or.inl ⟨t, ha, ha.start, fun i => output?_place (hfilled.lt_of_accepted ha) i⟩
    · exact Or.inr ⟨e, ha, ha.start⟩
  · exact output?_after hstart (output?_start ..) hmade

/-- A float output that is allocated and written to, and an output of no planned type. -/
def twoOutputs : List OutputCall :=
  [.output 0 [2], .write 0 .float32 1 1091567616#32, .output 1 [1], .outputTyped 1 .int64 [1],
    .setOutput 0 (Tensor.scalar .int32 1#32)]

/-- The two calls that fail leave no trace: the first output is as written, the second is an integer. -/
theorem outputs_filled_two : ∃ c₀ c t u, c₀ = start [] [.float32, .undefined] none none ∧
    c = c₀.after twoOutputs ∧ c.outputs = [some t, some u] ∧ t.view .float32 = .ok [0#32, 1091567616#32] ∧
    u.dtype = .int64 ∧ t.Made ∧ u.Made ∧ c₀.LastPut twoOutputs 0 t ∧ c₀.LastPut twoOutputs 1 u := by
  have hmade : ∀ i t, .setOutput i t ∈ twoOutputs → t.Made := by
    intro i t hmem
    simp only [twoOutputs, List.mem_cons, reduceCtorEq, List.not_mem_nil, or_false, false_or,
      OutputCall.setOutput.injEq] at hmem
    obtain ⟨-, rfl⟩ := hmem
    exact .scalar rfl _
  obtain ⟨c₀, h₀⟩ : ∃ c₀, c₀ = start [] [.float32, .undefined] none none := ⟨_, rfl⟩
  obtain ⟨-, htyped, -, hlast⟩ := outputs_filled h₀ rfl hmade
  have hout : ∃ t u, (c₀.after twoOutputs).outputs = [some t, some u] ∧
      t.view .float32 = .ok [0#32, 1091567616#32] ∧ u.dtype = .int64 := by
    subst h₀
    exact ⟨_, _, rfl, by decide, rfl⟩
  obtain ⟨t, u, hout, hview, htype⟩ := hout
  have ht : (c₀.after twoOutputs).output? 0 = some t := by
    unfold output?
    rw [hout]
    rfl
  have hu : (c₀.after twoOutputs).output? 1 = some u := by
    unfold output?
    rw [hout]
    rfl
  have hput : ∀ {i : Nat} {t : Tensor}, (c₀.after twoOutputs).output? i = some t →
      c₀.LastPut twoOutputs i t := by
    intro i t ht
    rcases hlast i with ⟨hnone, -⟩ | ⟨t', ht', hput⟩
    · rw [ht] at hnone
      cases hnone
    · exact Option.some.inj (ht'.symm.trans ht) ▸ hput
  exact ⟨c₀, _, t, u, h₀, rfl, hout, hview, htype, (htyped 0 t ht).1, (htyped 1 u hu).1, hput ht, hput hu⟩

end KernelContext

end OpGraph
