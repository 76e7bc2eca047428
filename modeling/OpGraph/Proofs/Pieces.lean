import OpGraph.Proofs.Registration

/-!
# `Proofs.Pieces` — a domain in one go or in pieces

Within one call an operator is held against the drafts and keys staged before it, across calls against the
schemas and keys of the catalog. Both tell the same: putting the first piece in the catalog and staging the
second there from nothing goes, operator by operator, as staging the second on top of the first does
(`stage_followedBy`). What is left is bookkeeping. Drafts are put into drafts and these into schemas, each
in the place of the one of its name; that it does not matter which is put into which first is
`putAll_putAll`.
-/

namespace OpGraph

open Outcome

/-! ## Putting in by key -/

namespace Keyed

variable {α κ : Type} [DecidableEq κ] (key : α → κ)

/-- Put an element in the place of the first one with its key, or at the end. -/
def putBy (a : α) : List α → List α
  | [] => [a]
  | e :: rest => if key e = key a then a :: rest else e :: putBy a rest

/-- Put some elements in, one after the other. -/
def putAll (new old : List α) : List α := new.foldl (fun as a => putBy key a as) old

@[simp] theorem putAll_nil (old : List α) : putAll key [] old = old := rfl

@[simp] theorem putAll_cons (a : α) (new old : List α) :
    putAll key (a :: new) old = putAll key new (putBy key a old) := rfl

theorem putBy_keys (a : α) (as : List α) :
    (putBy key a as).map key = if key a ∈ as.map key then as.map key else as.map key ++ [key a] := by
  induction as with
  | nil => simp [putBy]
  | cons e rest ih =>
      by_cases he : key e = key a
      · simp [putBy, he]
      · simp only [putBy, if_neg he, List.map_cons, ih, List.mem_cons, Ne.symm he, false_or]
        split <;> simp

theorem putBy_nodup {a : α} {as : List α} (h : (as.map key).Nodup) : ((putBy key a as).map key).Nodup := by
  rw [putBy_keys]
  split
  · exact h
  · next hnew => exact List.nodup_append.mpr ⟨h, by simp, by simpa using hnew⟩

theorem putAll_nodup {new old : List α} (h : (old.map key).Nodup) :
    ((putAll key new old).map key).Nodup := by
  induction new generalizing old with
  | nil => exact h
  | cons a new ih => exact ih (putBy_nodup key h)

/-- What is put in the place of an element that was just put in leaves no trace of it. -/
theorem putBy_putBy_self {a b : α} (h : key a = key b) (as : List α) :
    putBy key a (putBy key b as) = putBy key a as := by
  induction as with
  | nil => simp [putBy, h]
  | cons e rest ih =>
      by_cases he : key e = key b
      · simp [putBy, he, h]
      · simp [putBy, he, h, ih]

/-- An element that has its place already may come before or after one of another key. -/
theorem putBy_comm {a b : α} (hne : key a ≠ key b) {as : List α} (h : key a ∈ as.map key) :
    putBy key a (putBy key b as) = putBy key b (putBy key a as) := by
  induction as with
  | nil => cases h
  | cons e rest ih =>
      by_cases ha : key e = key a
      · have hb : key e ≠ key b := fun hb => hne (ha.symm.trans hb)
        simp [putBy, ha, hne]
      · have hrest : key a ∈ rest.map key := by simpa [Ne.symm ha] using h
        by_cases hb : key e = key b
        · simp [putBy, hb, Ne.symm hne]
        · simp [putBy, hb, ha, ih hrest]

/-- The same for any number of elements of other keys. -/
theorem putBy_putAll {a : α} {new : List α} (hnew : key a ∉ new.map key) {old : List α}
    (hold : key a ∈ old.map key) :
    putBy key a (putAll key new old) = putAll key new (putBy key a old) := by
  induction new generalizing old with
  | nil => rfl
  | cons b new ih =>
      rw [List.map_cons, List.mem_cons, not_or] at hnew
      obtain ⟨hne, hnew⟩ := hnew
      have hmem : key a ∈ (putBy key b old).map key := by
        rw [putBy_keys]
        split
        · exact hold
        · exact List.mem_append_left _ hold
      rw [putAll_cons, putAll_cons, ih hnew hmem, putBy_comm key hne hold]

/-- Elements of which one more is put in first: it may as well be put in last. -/
theorem putAll_putBy {new : List α} (h : (new.map key).Nodup) (a : α) (old : List α) :
    putAll key (putBy key a new) old = putBy key a (putAll key new old) := by
  induction new generalizing old with
  | nil => rfl
  | cons b new ih =>
      rw [List.map_cons, List.nodup_cons] at h
      obtain ⟨hb, hnodup⟩ := h
      by_cases hab : key b = key a
      · -- It takes the place of `b`, and no later element has its key.
        have hmem : key a ∈ (putBy key b old).map key := by
          rw [putBy_keys, hab]
          split
          · assumption
          · simp
        rw [putBy, if_pos hab, putAll_cons, putAll_cons, putBy_putAll key (hab ▸ hb) hmem,
          putBy_putBy_self key hab.symm]
      · rw [putBy, if_neg hab, putAll_cons, putAll_cons]
        exact ih hnodup _

/-- **Putting in is associative**: elements may be put into others before or after these are put in. -/
theorem putAll_putAll (new : List α) {old : List α} (h : (old.map key).Nodup) (base : List α) :
    putAll key (putAll key new old) base = putAll key new (putAll key old base) := by
  induction new generalizing old with
  | nil => rfl
  | cons a new ih =>
      rw [putAll_cons, putAll_cons, ih (putBy_nodup key h), putAll_putBy key h]

/-- Elements that are made into others, with keys that agree and differ as theirs did. -/
theorem map_putBy {β μ : Type} [DecidableEq μ] (key' : β → μ) (f : α → β)
    (hf : ∀ a b, key' (f a) = key' (f b) ↔ key a = key b) (a : α) (as : List α) :
    (putBy key a as).map f = putBy key' (f a) (as.map f) := by
  induction as with
  | nil => rfl
  | cons e rest ih =>
      by_cases he : key e = key a
      · simp [putBy, he, hf]
      · simp [putBy, he, hf, ih]

theorem map_putAll {β μ : Type} [DecidableEq μ] (key' : β → μ) (f : α → β)
    (hf : ∀ a b, key' (f a) = key' (f b) ↔ key a = key b) (new old : List α) :
    (putAll key new old).map f = putAll key' (new.map f) (old.map f) := by
  induction new generalizing old with
  | nil => rfl
  | cons a new ih =>
      rw [putAll_cons, ih, map_putBy key key' f hf, List.map_cons, putAll_cons]

end Keyed

namespace Catalog

open Keyed

/-! ## Drafts and schemas by key -/

/-- What a schema is known by. -/
def schemaKey (s : OpSchema) : String × String := (s.domain, s.name)

theorem putDraft_eq (d : Draft) (ds : List Draft) : putDraft d ds = putBy (·.name) d ds := by
  induction ds with
  | nil => rfl
  | cons e rest ih => rw [putDraft, putBy, ih]

theorem putSchema_eq (s : OpSchema) (ss : List OpSchema) : putSchema s ss = putBy schemaKey s ss := by
  induction ss with
  | nil => rfl
  | cons e rest ih =>
      rw [putSchema, putBy, ih]
      simp only [schemaKey, Prod.mk.injEq, Bool.and_eq_true, decide_eq_true_eq]

/-- Finished drafts put in one after the other. -/
theorem foldl_putSchema (domain : String) (ds : List Draft) (ss : List OpSchema) :
    (ds.map (·.finish domain)).foldl (fun ss s => putSchema s ss) ss =
      putAll schemaKey (ds.map (·.finish domain)) ss := by
  simp only [putSchema_eq, putAll]

/-- Drafts are put into drafts as the schemas they end as. -/
theorem finish_putAll (domain : String) (new old : List Draft) :
    (putAll (·.name) new old).map (·.finish domain) =
      putAll schemaKey (new.map (·.finish domain)) (old.map (·.finish domain)) := by
  apply map_putAll
  intro d e
  simp [schemaKey, Draft.finish]

/-! ## One piece after the other -/

/-- What two pieces staged one after the other come to. -/
def Staged.followedBy (st st' : Staged) : Staged :=
  { drafts := putAll (·.name) st'.drafts st.drafts
    kernels := st.kernels ++ st'.kernels }

theorem Staged.followedBy_nothing (st : Staged) : st.followedBy {} = st := by
  simp [Staged.followedBy]

/-- A name's draft comes from the second piece, else from the first. -/
theorem Staged.draft?_followedBy {st st' : Staged} (h : (st'.drafts.map (·.name)).Nodup) (name : String) :
    (st.followedBy st').draft? name = (st'.draft? name).or (st.draft? name) := by
  suffices hput : ∀ (new old : List Draft), (new.map (·.name)).Nodup →
      ((putAll (·.name) new old).find? fun d => d.name = name) =
        (new.find? fun d => d.name = name).or (old.find? fun d => d.name = name) from hput _ _ h
  intro new
  induction new with
  | nil => intro old _; rfl
  | cons d new ih =>
      intro old hnodup
      rw [List.map_cons, List.nodup_cons] at hnodup
      obtain ⟨hd, hnodup⟩ := hnodup
      rw [putAll_cons, ih _ hnodup, ← putDraft_eq, find?_putDraft]
      by_cases hname : d.name = name
      · have hnone : (new.find? fun e => e.name = name) = none := by
          refine List.find?_eq_none.mpr fun e he heq => hd (List.mem_map.mpr ⟨e, he, ?_⟩)
          simpa [hname] using heq
        simp [hname, hnone]
      · simp [hname]

section

variable {c : Catalog} {domain : String} {A B : List Descriptor} {st st' : Staged}

/-- The draft of a name is the same, whether the first piece is staged or in the catalog. -/
theorem draftFor_followedBy (hs : c.InStep domain st) (hs' : (c.committed domain A st).InStep domain st')
    (name : String) (shape : FormalShape) :
    c.draftFor domain (st.followedBy st') name shape =
      (c.committed domain A st).draftFor domain st' name shape := by
  have hdraft : (st.followedBy st').draft? name = _ := Staged.draft?_followedBy hs'.names name
  have hschema := schema?_committed hs A name domain
  rw [if_pos rfl] at hschema
  simp only [Staged.draft?] at hdraft hschema
  unfold draftFor
  rw [hdraft, hschema]
  cases hsecond : st'.drafts.find? fun d => d.name = name with
  | some d => rfl
  | none =>
      cases hfirst : st.drafts.find? fun d => d.name = name with
      | none => rfl
      | some d =>
          -- The schema the draft ended as gives the draft back.
          have hname : d.name = name := by simpa using List.find?_some hfirst
          subst hname
          rfl

/-- **Each check coincides**: an operator is staged on top of the first piece as it is staged in a catalog
    that has the first piece, with the same outcome and the same error. -/
theorem stage_followedBy (hs : c.InStep domain st) (hs' : (c.committed domain A st).InStep domain st')
    (op : Descriptor) :
    c.stage domain (st.followedBy st') op =
      ((c.committed domain A st).stage domain st' op).map (st.followedBy ·) := by
  have hkeys : c.kernels.keys ++ (st.followedBy st').kernels.map (·.1.key) =
      (c.committed domain A st).kernels.keys ++ st'.kernels.map (·.1.key) := by
    simp [Staged.followedBy, Catalog.committed]
  simp only [stage, bind, Except.bind, draftFor_followedBy hs hs', hkeys]
  cases FormalShape.ofSignature op.signature with
  | error e => rfl
  | ok shape =>
      simp only
      cases ((c.committed domain A st).draftFor domain st' op.signature.name shape).shape.ensureCompatible
        op.signature.name shape with
      | error e => rfl
      | ok _ =>
          simp only
          split
          · rfl
          · show Except.ok _ = Except.ok _
            simp only [Staged.followedBy, putDraft_eq, putAll_putBy _ hs'.names, List.append_assoc,
              Catalog.committed]

/-- Staging the second piece on top of the first is staging it in a catalog that has the first. -/
theorem foldlM_followedBy (h : c.Lockstep) (hst : c.stageAll domain A = .ok st) (B : List Descriptor) :
    B.foldlM (c.stage domain) st = ((c.committed domain A st).stageAll domain B).map (st.followedBy ·) := by
  have hs : c.InStep domain st := InStep.stageAll h hst
  have h₁ : (c.committed domain A st).Lockstep := h.committed hst
  suffices hfrom : ∀ st' : Staged, (c.committed domain A st).InStep domain st' →
      B.foldlM (c.stage domain) (st.followedBy st') =
        (B.foldlM ((c.committed domain A st).stage domain) st').map (st.followedBy ·) by
    have hnothing := hfrom {} (InStep.nothing h₁ domain)
    rwa [Staged.followedBy_nothing] at hnothing
  induction B with
  | nil => intro st' _; rfl
  | cons op rest ih =>
      intro st' hs'
      rw [List.foldlM_cons, List.foldlM_cons, stage_followedBy hs hs']
      cases hop : (c.committed domain A st).stage domain st' op with
      | error e => rfl
      | ok st'' => exact ih st'' (hs'.stage h₁ hop)

/-- **Both ways end in one catalog.** Schemas, versions, kernels and keys are those the pieces leave when
    the second is put in after the first. -/
theorem committed_followedBy (hs : c.InStep domain st) (B : List Descriptor) (st' : Staged) :
    c.committed domain (A ++ B) (st.followedBy st') =
      (c.committed domain A st).committed domain B st' := by
  have hschemas : ((st.followedBy st').drafts.map (·.finish domain)).foldl (fun ss s => putSchema s ss)
      c.schemas = (st'.drafts.map (·.finish domain)).foldl (fun ss s => putSchema s ss)
        ((st.drafts.map (·.finish domain)).foldl (fun ss s => putSchema s ss) c.schemas) := by
    have hkeys : ((st.drafts.map (·.finish domain)).map schemaKey).Nodup := by
      have hmap : (st.drafts.map (·.finish domain)).map schemaKey =
          (st.drafts.map (·.name)).map (domain, ·) := by
        simp [schemaKey, Draft.finish]
      rw [hmap]
      refine List.Pairwise.map _ ?_ hs.names
      intro name name' hne heq
      exact hne (Prod.mk.inj heq).2
    rw [foldl_putSchema, foldl_putSchema, foldl_putSchema, Staged.followedBy, finish_putAll]
    exact putAll_putAll schemaKey _ hkeys _
  -- A domain with operators in the first piece is known when the second comes.
  have hranges : (if (A ++ B).isEmpty then c.ranges else c.putRange domain) =
      if B.isEmpty then (c.committed domain A st).ranges
      else (c.committed domain A st).putRange domain := by
    cases A with
    | nil => rfl
    | cons op rest =>
        cases B with
        | nil => simp [Catalog.committed]
        | cons op' rest' =>
            have hknown : ((c.committed domain (op :: rest) st).range? domain).isSome := by
              rw [range?_committed, if_pos ⟨rfl, List.cons_ne_nil _ _⟩]
              cases c.range? domain <;> rfl
            rw [putRange.eq_def (c.committed domain (op :: rest) st), if_pos hknown]
            simp [Catalog.committed]
  simp only [Catalog.committed] at hschemas hranges ⊢
  rw [hschemas, hranges]
  simp [Staged.followedBy]

end

/-! ## Registering in pieces -/

/-- Registering a domain is staging it and committing what was staged. -/
theorem Lockstep.registerDomain_eq {c : Catalog} (h : c.Lockstep) (domain : String)
    (ops : List Descriptor) :
    c.registerDomain domain ops = (c.stageAll domain ops).map fun st =>
      (c.committed domain ops st, st.drafts.map (·.finish domain)) := by
  unfold registerDomain
  obtain ⟨e, hst, heq⟩ | ⟨st, hst, heq⟩ := h.enroll_cases domain ops
  · rw [heq, hst]
    rfl
  · rw [heq, hst]
    rfl

/-- Two pieces in one go: the outcome is that of one after the other, errors included, and the schemas
    reported are those of the first piece with those of the second in their places. -/
theorem Lockstep.registerDomain_append {c : Catalog} (h : c.Lockstep) (domain : String)
    (A B : List Descriptor) :
    c.registerDomain domain (A ++ B) = (do
      let (c₁, out₁) ← c.registerDomain domain A
      let (c₂, out₂) ← c₁.registerDomain domain B
      pure (c₂, putAll schemaKey out₂ out₁)) := by
  rw [h.registerDomain_eq, h.registerDomain_eq, stageAll, List.foldlM_append, ← stageAll]
  cases hst : c.stageAll domain A with
  | error e => rfl
  | ok st =>
      have hs : c.InStep domain st := InStep.stageAll h hst
      show (B.foldlM (c.stage domain) st).map _ =
        (c.committed domain A st).registerDomain domain B >>= fun r =>
          pure (r.1, putAll schemaKey r.2 (st.drafts.map (·.finish domain)))
      rw [foldlM_followedBy h hst, (h.committed hst).registerDomain_eq]
      cases (c.committed domain A st).stageAll domain B with
      | error e => rfl
      | ok st' =>
          show Except.ok (c.committed domain (A ++ B) (st.followedBy st'),
            (st.followedBy st').drafts.map (·.finish domain)) = Except.ok _
          rw [committed_followedBy hs, Staged.followedBy, finish_putAll]

/-- **One go or two is the same.** After any history, a domain of the operators `A` and then `B` goes in,
    and leaves a certain catalog, exactly if `A` goes in and `B` goes into what that leaves, and leaves that
    same catalog: the schemas with their shapes and bindings, the kernels in the order they are looked up,
    the keys and the versions of domains. -/
theorem registered_in_two_exactly_if_in_one (newest : Nat) (calls : List (String × List Descriptor))
    (domain : String) (A B : List Descriptor) (c' : Catalog) :
    let c := history newest calls
    (∃ out, c.registerDomain domain (A ++ B) = .ok (c', out)) ↔
      ∃ c₁ out₁ out₂, c.registerDomain domain A = .ok (c₁, out₁) ∧
        c₁.registerDomain domain B = .ok (c', out₂) := by
  intro c
  have h : c.Lockstep := history_lockstep newest calls
  have happend := h.registerDomain_append domain A B
  constructor
  · rintro ⟨out, hwhole⟩
    rw [happend, bind_eq_ok] at hwhole
    obtain ⟨⟨c₁, out₁⟩, hA, hrest⟩ := hwhole
    obtain ⟨⟨c₂, out₂⟩, hB, hend⟩ := bind_eq_ok.mp hrest
    obtain ⟨rfl, -⟩ := Prod.mk.inj (pure_eq_ok.mp hend)
    exact ⟨c₁, out₁, out₂, hA, hB⟩
  · rintro ⟨c₁, out₁, out₂, hA, hB⟩
    refine ⟨putAll schemaKey out₂ out₁, ?_⟩
    rw [happend, bind_eq_ok]
    refine ⟨(c₁, out₁), hA, ?_⟩
    apply bind_eq_ok.mpr
    exact ⟨(c', out₂), hB, rfl⟩

end Catalog

end OpGraph
