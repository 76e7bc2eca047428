/-!
# `Proofs.Outcome` — computations that may fail, taken apart

A chain of checks that ends well passed each of them. These lemmas say so for the ways checks are chained
here: one after the other, over a list with a state, and over a list with a result each.
-/

namespace OpGraph.Outcome

variable {ε α β σ : Type}

theorem bind_eq_ok {x : Except ε α} {f : α → Except ε β} {b : β} :
    (x >>= f) = .ok b ↔ ∃ a, x = .ok a ∧ f a = .ok b := by
  cases x <;> simp [bind, Except.bind]

theorem map_eq_ok {x : Except ε α} {f : α → β} {b : β} :
    x.map f = .ok b ↔ ∃ a, x = .ok a ∧ f a = b := by
  cases x <;> simp [Except.map]

theorem pure_eq_ok {a b : α} : (pure a : Except ε α) = .ok b ↔ a = b := by
  simp [pure, Except.pure]

theorem mapError_eq_ok {ε' : Type} {x : Except ε α} {translate : ε → ε'} {a : α} :
    x.mapError translate = .ok a ↔ x = .ok a := by
  cases x with
  | error e =>
      change Except.error (translate e) = .ok a ↔ Except.error e = .ok a
      simp
  | ok a' =>
      change Except.ok a' = .ok a ↔ Except.ok a' = .ok a
      simp

/-- A check in front of the rest was passed. -/
theorem unless_eq_ok {p : Prop} [Decidable p] {e : ε} {k : β → Except ε α} {rest : Except ε α} {a : α} :
    (if p then (throw e : Except ε β) >>= k else rest) = .ok a ↔ ¬p ∧ rest = .ok a := by
  by_cases hp : p
  · simp only [hp, if_true, bind_eq_ok, not_true, false_and, iff_false, not_exists, not_and]
    intro b hb
    cases hb
  · simp [hp]

/-- What holds at the start and is kept by every step that ends well holds at the end. -/
theorem foldlM_induction {f : σ → α → Except ε σ} (motive : σ → List α → Prop)
    (step : ∀ s seen a s', motive s seen → f s a = .ok s' → motive s' (seen ++ [a])) :
    ∀ (xs : List α) (s : σ) (seen : List α) {s' : σ}, motive s seen → xs.foldlM f s = .ok s' →
      motive s' (seen ++ xs) := by
  intro xs
  induction xs with
  | nil =>
      intro s seen s' h hf
      obtain rfl : s = s' := by simpa [pure_eq_ok] using hf
      simpa using h
  | cons a rest ih =>
      intro s seen s' h hf
      rw [List.foldlM_cons, bind_eq_ok] at hf
      obtain ⟨s₁, h₁, hrest⟩ := hf
      simpa using ih s₁ (seen ++ [a]) (step s seen a s₁ h h₁) hrest

/-- Steps that end well from every state end well one after the other. -/
theorem exists_foldlM_eq_ok {f : σ → α → Except ε σ} {xs : List α}
    (h : ∀ s, ∀ a ∈ xs, ∃ s', f s a = .ok s') (s : σ) : ∃ s', xs.foldlM f s = .ok s' := by
  induction xs generalizing s with
  | nil => exact ⟨s, rfl⟩
  | cons a rest ih =>
      obtain ⟨s₁, h₁⟩ := h s a List.mem_cons_self
      obtain ⟨s', h'⟩ := ih (fun s a' ha' => h s a' (List.mem_cons_of_mem _ ha')) s₁
      exact ⟨s', by rw [List.foldlM_cons, bind_eq_ok]; exact ⟨s₁, h₁, h'⟩⟩

/-- A list of computations ends well exactly if each does. -/
theorem mapM_eq_ok {f : α → Except ε β} {xs : List α} {ys : List β} :
    xs.mapM f = .ok ys ↔ xs.map f = ys.map .ok := by
  induction xs generalizing ys with
  | nil => cases ys <;> simp [pure_eq_ok]
  | cons a rest ih =>
      have hcons : (a :: rest).mapM f = .ok ys ↔
          ∃ b, f a = .ok b ∧ ∃ bs, rest.mapM f = .ok bs ∧ b :: bs = ys := by
        rw [List.mapM_cons, bind_eq_ok]
        simp only [bind_eq_ok, pure_eq_ok]
      rw [hcons]
      cases ys with
      | nil => simp
      | cons b bs => simp [ih]

theorem length_of_mapM_eq_ok {f : α → Except ε β} {xs : List α} {ys : List β} (h : xs.mapM f = .ok ys) :
    ys.length = xs.length := by
  simpa using (congrArg List.length (mapM_eq_ok.mp h)).symm

/-- The result at a position is that of what stands there. -/
theorem getElem?_of_mapM_eq_ok {f : α → Except ε β} {xs : List α} {ys : List β} (h : xs.mapM f = .ok ys)
    (i : Nat) : xs[i]?.map f = ys[i]?.map .ok := by
  rw [← List.getElem?_map, ← List.getElem?_map, mapM_eq_ok.mp h]

theorem exists_mapM_eq_ok {f : α → Except ε β} {xs : List α} (h : ∀ a ∈ xs, ∃ b, f a = .ok b) :
    ∃ ys, xs.mapM f = .ok ys := by
  induction xs with
  | nil => exact ⟨[], rfl⟩
  | cons a rest ih =>
      obtain ⟨b, hb⟩ := h a List.mem_cons_self
      obtain ⟨bs, hbs⟩ := ih fun a' ha' => h a' (List.mem_cons_of_mem _ ha')
      refine ⟨b :: bs, mapM_eq_ok.mpr ?_⟩
      rw [List.map_cons, List.map_cons, hb, mapM_eq_ok.mp hbs]

theorem exists_of_mapM_eq_ok {f : α → Except ε β} {xs : List α} {ys : List β}
    (h : xs.mapM f = .ok ys) : ∀ a ∈ xs, ∃ b, f a = .ok b := by
  intro a ha
  have hmem : f a ∈ ys.map .ok := mapM_eq_ok.mp h ▸ List.mem_map_of_mem ha
  obtain ⟨b, -, hb⟩ := List.mem_map.mp hmem
  exact ⟨b, hb.symm⟩

/-- Where a list of computations fails, one of them does. -/
theorem exists_of_mapM_eq_error {f : α → Except ε β} {xs : List α} {e : ε} (h : xs.mapM f = .error e) :
    ∃ a ∈ xs, f a = .error e := by
  induction xs with
  | nil => cases h
  | cons a rest ih =>
      rw [List.mapM_cons] at h
      cases ha : f a with
      | error e' =>
          rw [ha] at h
          obtain rfl : e' = e := Except.error.inj h
          exact ⟨a, List.mem_cons_self, ha⟩
      | ok b =>
          have hrest : rest.mapM f = .error e := by
            rw [ha] at h
            cases hbs : rest.mapM f with
            | error e' =>
                rw [hbs] at h
                exact h
            | ok bs =>
                rw [hbs] at h
                cases h
          obtain ⟨a', ha', he⟩ := ih hrest
          exact ⟨a', List.mem_cons_of_mem _ ha', he⟩

/-- Where all computations of a list end well, each comes with its own result. -/
theorem mem_zip_of_mapM_eq_ok {f : α → Except ε β} {xs : List α} {ys : List β} (h : xs.mapM f = .ok ys)
    {a : α} {b : β} : (a, b) ∈ xs.zip ys ↔ a ∈ xs ∧ f a = .ok b := by
  induction xs generalizing ys with
  | nil => simp
  | cons x rest ih =>
      have hmap := mapM_eq_ok.mp h
      cases ys with
      | nil => simp at hmap
      | cons y ys =>
          simp only [List.map_cons, List.cons.injEq] at hmap
          rw [List.zip_cons_cons, List.mem_cons, List.mem_cons, ih (mapM_eq_ok.mpr hmap.2), Prod.mk.injEq]
          constructor
          · rintro (⟨rfl, rfl⟩ | ⟨hmem, hok⟩)
            · exact ⟨.inl rfl, hmap.1⟩
            · exact ⟨.inr hmem, hok⟩
          · rintro ⟨rfl | hmem, hok⟩
            · exact .inl ⟨rfl, Except.ok.inj (hok.symm.trans hmap.1)⟩
            · exact .inr ⟨hmem, hok⟩

/-- Results that tell what they were computed from. -/
theorem map_of_mapM_eq_ok {f : α → Except ε β} {xs : List α} {ys : List β} {back : β → α}
    (h : xs.mapM f = .ok ys) (hback : ∀ a b, f a = .ok b → back b = a) : ys.map back = xs := by
  induction xs generalizing ys with
  | nil =>
      obtain rfl : ys = [] := by simpa using mapM_eq_ok.mp h
      rfl
  | cons a rest ih =>
      have hmap := mapM_eq_ok.mp h
      cases ys with
      | nil => simp at hmap
      | cons b bs =>
          simp only [List.map_cons, List.cons.injEq] at hmap
          rw [List.map_cons, hback a b hmap.1, ih (mapM_eq_ok.mpr hmap.2)]

end OpGraph.Outcome
