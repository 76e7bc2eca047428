import OpGraph.Operator.Builtin
import OpGraph.Proofs.Chronicle

/-!
# `Proofs.Flushed` — which streams a run has flushed when it returns

However launching ended, the host goes on to flush the streams of the plan, one after the other. Where no
flush fails it flushes all of them, and leaves no work in any queue. A kernel may have enqueued a job that
panics, though, or a device may report something; then the host stops at the first flush that tells so. The
streams up to that one are drained (`System.flushed_streams_idle`), and the ones after it are not even
asked, so work of the run may be left in their queues (`System.streams_left_undrained`).
-/

namespace OpGraph

open Machine

/-- When an instruction has its turn among the last ones. -/
def Instruction.turn : Instruction → Nat
  | .flush k => 2 * k + 1
  | .flushed k => 2 * k + 2
  | _ => 0

namespace Plan

/-- The last instructions each have a turn of their own. -/
theorem draining_inTurn (p : Plan) : p.draining.Pairwise fun a b => a.turn < b.turn := by
  have hturn : ∀ {k : Nat} {a : Instruction}, a ∈ [Instruction.flush k, .flushed k] →
      2 * k < a.turn ∧ a.turn ≤ 2 * k + 2 := by
    intro k a ha
    rcases List.mem_cons.mp ha with rfl | ha
    · exact ⟨Nat.lt_succ_self _, Nat.le_succ _⟩
    · obtain rfl := List.mem_singleton.mp ha
      exact ⟨Nat.lt_add_of_pos_right (by decide), Nat.le_refl _⟩
  refine List.pairwise_cons.mpr ⟨fun b hb => ?_, List.pairwise_flatMap.mpr ⟨fun k _ => ?_, ?_⟩⟩
  · obtain ⟨k, -, hb⟩ := List.mem_flatMap.mp hb
    exact Nat.lt_of_le_of_lt (Nat.zero_le _) (hturn hb).1
  · simp [Instruction.turn]
  · refine List.pairwise_lt_range.imp fun hlt a ha b hb => ?_
    have hhigh := (hturn ha).2
    have hlow := (hturn hb).1
    omega

/-- A stream is asked for a flush before its answer is waited for. -/
theorem flush_gone {p : Plan} {k : Nat} {rest : List Instruction} (h : .flushed k :: rest <:+ p.draining) :
    .flush k ∉ rest := by
  intro hmem
  have hlt := (List.pairwise_cons.mp ((p.draining_inTurn).sublist h.sublist)).1 _ hmem
  simp only [Instruction.turn] at hlt
  omega

/-- Among the flushes of `n` streams in order, the ones answered so far are the first ones. -/
theorem flushed_lt_of_prefix {n : Nat} {done : List Instruction}
    (h : done <+: ((List.range n).flatMap fun s => [.flush s, .flushed s])) :
    ∃ count ≤ n, ∀ k, .flushed k ∈ done ↔ k < count := by
  induction n generalizing done with
  | zero =>
      obtain rfl := List.prefix_nil.mp h
      exact ⟨0, Nat.le_refl 0, by simp⟩
  | succ n ih =>
      have hlast : ((List.range (n + 1)).flatMap fun s => [Instruction.flush s, .flushed s]) =
          ((List.range n).flatMap fun s => [Instruction.flush s, .flushed s]) ++ [.flush n] ++
            [.flushed n] := by
        simp [List.range_succ, List.flatMap_append]
      rw [hlast] at h
      rcases List.prefix_concat_iff.mp h with rfl | h
      · refine ⟨n + 1, Nat.le_refl _, fun k => ?_⟩
        have hmem : Instruction.flushed k ∈ ((List.range n).flatMap fun s => [Instruction.flush s,
            .flushed s]) ++ [.flush n] ++ [.flushed n] ↔ k < n ∨ k = n := by simp
        rw [hmem]
        omega
      · rcases List.prefix_concat_iff.mp h with rfl | h
        · exact ⟨n, Nat.le_succ n, fun k => by simp⟩
        · obtain ⟨count, hle, hcount⟩ := ih h
          exact ⟨count, Nat.le_succ_of_le hle, hcount⟩

/-- The streams flushed so far are the first ones. -/
theorem flushed_first {p : Plan} {done : List Instruction} (h : done <+: p.draining) :
    ∃ count ≤ p.streams.length, ∀ k, .flushed k ∈ done ↔ k < count := by
  unfold draining at h
  rcases List.prefix_cons_iff.mp h with rfl | ⟨rest, rfl, hrest⟩
  · exact ⟨0, Nat.zero_le _, by simp⟩
  · obtain ⟨count, hle, hcount⟩ := flushed_lt_of_prefix hrest
    exact ⟨count, hle, fun k => by simp [hcount k]⟩

end Plan

namespace Run

variable {i k : Nat} {r r' q : Run} {m m' : Machine NodeJob} {a : Instruction} {w : Worker}
  {more : Worker → List (Command NodeJob)} {done : List Instruction} {fed : List (String × Tensor)}

/-- Once everything is launched, a queue without work of the run stays so. -/
theorem Saw.idle (hs : r.Saw i m r' m') (hp : r.Placed i m) (hlaunching : r.launching = [])
    (h : Idle i (m.queue w).pending) : Idle i (m'.queue w).pending := by
  cases hs with
  | pushed hpushes halien => exact h.pushed hpushes (idle_of_alien (halien w))
  | took hhead _ hpopped _ hput =>
      exact h.popped hhead hpopped (fun _ label job hmem => hput label job (List.mem_append_left _ hmem))
        fun label job hmem => hput label job (List.mem_append_right _ hmem)
  | @worked _ w' label job n more hhead hown hn hpopped hcalm =>
      refine h.popped hhead hpopped (fun hidle => ?_) fun label job hmem => (hcalm _ hmem).elim
      exact absurd hown (hidle label job (List.mem_singleton_self _))
  | proceeded => exact h
  | @did _ q _ a more _ hnext hpushes hdid =>
      refine h.pushed hpushes fun label job hput _ => ?_
      obtain ⟨rfl, -⟩ := hdid.put hput
      rcases hp.next hnext with ⟨heq, -⟩ | ⟨-, -, -, hsuffix⟩
      · rw [hlaunching] at heq
        cases heq
      · exact Plan.draining_not_launch (hsuffix.subset List.mem_cons_self)

/-- What is known of streams whose flush was answered. -/
structure Emptied (i : Nat) (m : Machine NodeJob) (r : Run) (done : List Instruction) : Prop where
  launching : ∀ k, .flushed k ∈ done → r.launching = []
  streams : ∀ (k : Nat) s w, .flushed k ∈ done → r.plan.streams[k]? = some s → s.worker? = some w →
    Idle i (m.queue w).pending
  stopped : r.flushError ≠ none → r.draining = [] ∧ ∃ k, .flushed k ∈ done

theorem Emptied.unmoved (h : r.Emptied i m done) (hp : r.Placed i m) (hs : r.Saw i m r' m')
    (hsame : r.Unmoved r') : r'.Emptied i m' done := by
  refine ⟨fun k hk => hsame.launching.trans (h.launching k hk), fun k s w hk hstream hw => ?_, ?_⟩
  · exact hs.idle hp (h.launching k hk) (h.streams k s w hk (hsame.plan ▸ hstream) hw)
  · rw [hsame.flushError, hsame.draining]
    exact h.stopped

/-- Whoever waits for the answer of a stream has an answer only if no work of the run is left there. -/
theorem Emptied.answered (h : r.Emptied i m done) (hl : r.Lawful fed i m) (hnext : r.Next (.flushed k) q)
    (hd : Did i m m' q (.flushed k) r' more) {s : Stream} (hs : r.plan.streams[k]? = some s)
    (hw : s.worker? = some w) : Idle i (m.queue w).pending := by
  rcases hl.placed.next hnext with ⟨-, hsuffix, -⟩ | ⟨-, -, hdraining, hsuffix⟩
  · exact absurd (hsuffix.subset List.mem_cons_self) Plan.launching_not_flushed
  have hasked : q.asked = r.asked := hnext.host.2.1
  have hanswer : ∃ answer, (m.queue w).replies[r.asked]? = some answer := by
    cases hd with
    | flushed hs' hanswer =>
        obtain rfl := Option.some.inj ((hnext.plan ▸ hs').symm.trans hs)
        exact ⟨none, hasked ▸ hanswer w hw⟩
    | failed hs' hfails =>
        obtain rfl := Option.some.inj ((hnext.plan ▸ hs').symm.trans hs)
        cases hfails with
        | panicked hw' hanswer =>
            obtain rfl := Option.some.inj (hw.symm.trans hw')
            exact ⟨_, hasked ▸ hanswer⟩
        | reported hreport => cases hw.symm.trans (Stream.worker?_of_poll hreport)
    | unanswered hnone =>
        rw [hnext.plan, hs] at hnone
        cases hnone
  cases hl.drains.streams k s w hs hw with
  | ahead hahead =>
      rw [hdraining] at hahead
      exact absurd ((List.mem_cons.mp hahead).resolve_left nofun) (Plan.flush_gone hsuffix)
  | asked _ hsplit =>
      obtain ⟨answer, hanswer⟩ := hanswer
      rw [hsplit.unanswered] at hanswer
      cases hanswer
  | stopped hsome =>
      rw [(h.stopped (Option.isSome_iff_ne_none.mp hsome)).1] at hdraining
      cases hdraining
  | idle hidle => exact hidle

theorem Emptied.did (h : r.Emptied i m done) (hl : r.Lawful fed i m) (hactive : r.active = none)
    (hnext : r.Next a q) (hpushes : Pushes m m' more) (hd : Did i m m' q a r' more) :
    r'.Emptied i m' (done ++ [a]) := by
  have hs : r.Saw i m r' m' := .did hactive hnext hpushes hd
  have hstays : r.launching = [] → r'.launching = [] := fun hnil =>
    List.suffix_nil.mp (hnil ▸ hd.ahead.1.trans hnext.ahead.1)
  have hempty : ∀ k, .flushed k ∈ done ++ [a] → r.launching = [] := by
    intro k hk
    rcases List.mem_append.mp hk with hold | hnew
    · exact h.launching k hold
    · obtain rfl := List.mem_singleton.mp hnew
      cases hnext with
      | draining hnil => exact hnil
      | launching heq =>
          exact absurd (hl.placed.launching.subset (heq ▸ List.mem_cons_self)) Plan.launching_not_flushed
  refine ⟨fun k hk => hstays (hempty k hk), fun k s w hk hstream hw => ?_, fun hne => ?_⟩
  · rw [hs.plan] at hstream
    refine hs.idle hl.placed (hempty k hk) ?_
    rcases List.mem_append.mp hk with hold | hnew
    · exact h.streams k s w hold hstream hw
    · obtain rfl := List.mem_singleton.mp hnew
      exact h.answered hl hnext hd hstream hw
  · have hbefore : q.flushError = r.flushError := hnext.host.2.2.2
    have hold : r.flushError ≠ none → r'.draining = [] ∧ ∃ k, .flushed k ∈ done ++ [a] := by
      intro hne
      obtain ⟨hnil, k, hk⟩ := h.stopped hne
      exact ⟨List.suffix_nil.mp (hnil ▸ hd.ahead.2.trans hnext.ahead.2), k, List.mem_append_left _ hk⟩
    cases hd with
    | @failed k => exact ⟨rfl, k, List.mem_append_right _ (List.mem_singleton_self _)⟩
    | check => exact hold (by split at hne <;> exact hbefore ▸ hne)
    | _ => exact hold (hbefore ▸ hne)

theorem Emptied.start {p : Plan} (hr : start p fed = .ok r) : r.Emptied i m [] := by
  obtain ⟨slots, -, rfl⟩ := Outcome.map_eq_ok.mp hr
  exact ⟨nofun, nofun, fun hne => absurd rfl hne⟩

/-- No work of run `i` is left on any stream of its plan. -/
def Drained (i : Nat) (m : Machine NodeJob) (r : Run) : Prop :=
  ∀ s ∈ r.plan.streams, ∀ w, s.worker? = some w → Idle i (m.queue w).pending

end Run

namespace System

variable {σ : System} {log : List (Nat × Instruction)}

/-- **A run drains its streams up to the first flush that fails.** Whether everything was
    launched, or launching ended early, the streams that were flushed are the first ones, and no work of
    the run is left on any of them; they are all streams unless a flush failed. -/
theorem flushed_streams_idle (h : Chronicled σ log) {i : Nat} {r : Run} (hr : σ.runs[i]? = some r)
    (hover : r.isOver = true) : ∃ count ≤ r.plan.streams.length,
      (∀ k, .flushed k ∈ carriedOut i log ↔ k < count) ∧
      (∀ (k : Nat) s w, k < count → r.plan.streams[k]? = some s → s.worker? = some w →
        Run.Idle i (σ.machine.queue w).pending) ∧
      (r.flushError ≠ none → 0 < count) ∧
      (r.flushError = none → count = r.plan.streams.length ∧ r.Drained i σ.machine) := by
  have hemptied : r.Emptied i σ.machine (carriedOut i log) :=
    h.kept (P := fun i r m done => r.Emptied i m done) (fun hstart _ => .start hstart)
      (fun hl _ hemptied hs hsame => hemptied.unmoved hl.placed hs hsame)
      (fun hl _ hemptied hactive hnext hpushes hdid => hemptied.did hl hactive hnext hpushes hdid) hr
  obtain ⟨launched, drained, hdone, ⟨⟨skipped, hlaunching, -⟩, ⟨dropped, hdraining, hwhy⟩, -⟩⟩ := h.trail hr
  rw [(Run.isOver_iff.mp hover).2.2, List.append_nil] at hdraining
  obtain ⟨count, hle, hcount⟩ := Plan.flushed_first (p := r.plan) ⟨dropped, hdraining.symm⟩
  have hmem : ∀ k, .flushed k ∈ carriedOut i log ↔ k < count := by
    intro k
    rw [hdone, List.mem_append, ← hcount k]
    refine or_iff_right fun hearly => ?_
    have hplan : .flushed k ∈ r.plan.launching := by
      rw [hlaunching, List.append_assoc]
      exact List.mem_append_left _ hearly
    exact Plan.launching_not_flushed hplan
  have hidle : ∀ (k : Nat) s w, k < count → r.plan.streams[k]? = some s → s.worker? = some w →
      Run.Idle i (σ.machine.queue w).pending :=
    fun k s w hk => hemptied.streams k s w ((hmem k).mpr hk)
  refine ⟨count, hle, hmem, hidle, fun hne => ?_, fun hfine => ?_⟩
  · obtain ⟨k, hk⟩ := (hemptied.stopped hne).2
    exact Nat.lt_of_le_of_lt (Nat.zero_le k) ((hmem k).mp hk)
  · obtain rfl : dropped = [] := Classical.byContradiction fun hne => (hwhy hne).2 hfine
    rw [List.append_nil] at hdraining
    have hall : ∀ k < r.plan.streams.length, k < count := fun k hk => (hcount k).mp <| by
      rw [← hdraining]
      exact Plan.mem_draining.mpr (Or.inr ⟨k, hk, Or.inr rfl⟩)
    refine ⟨Nat.le_antisymm hle (Nat.le_of_not_lt fun hlt => Nat.lt_irrefl _ (hall count hlt)),
      fun s hs w hw => ?_⟩
    obtain ⟨k, hk⟩ := List.mem_iff_getElem?.mp hs
    exact hidle k s w (hall k (List.getElem?_eq_some_iff.mp hk).1) hk hw

/-! ## Streams that are not flushed -/

end System

/-- Let the host of a run and workers take steps in a given order; the host where no worker is named. -/
def Execution.follow (i : Nat) : List (Option Worker) → Execution → Option Execution
  | [], x => some x
  | none :: rest, x => (x.hostStep i).bind (follow i rest)
  | some w :: rest, x => (x.workerStep w).bind (follow i rest)

namespace System

variable {σ : System}

theorem Reached.follow (h : Reached σ) {i : Nat} {turns : List (Option Worker)} {x : Execution}
    (hx : σ.execution.follow i turns = some x) : Reached { σ with execution := x } := by
  induction turns generalizing σ with
  | nil => exact Option.some.inj hx ▸ h
  | cons turn rest ih =>
      cases turn with
      | none =>
          obtain ⟨x₁, hstep, hrest⟩ := Option.bind_eq_some_iff.mp hx
          have h₁ : Reached { σ with execution := x₁ } := .step h (.host hstep)
          have hlast := ih h₁ hrest
          exact hlast
      | some w =>
          obtain ⟨x₁, hstep, hrest⟩ := Option.bind_eq_some_iff.mp hx
          have h₁ : Reached { σ with execution := x₁ } := .step h (.work hstep)
          have hlast := ih h₁ hrest
          exact hlast

/-- A provider next to the usual one. -/
def second : ProviderId := ⟨"SecondExecutionProvider"⟩

/-- An operator that only enqueues a job on the stream it runs on. -/
def spawning (provider : ProviderId) (panics : Bool) : Descriptor :=
  Builtin.stateless (Builtin.signature "Spawn" (some provider) [.undefined] [.undefined])
    (KernelM.launch { label := "spawned", panics }) (.launch _)

/-- Two simulated providers, and on the first of them an operator whose job panics. -/
def spawningSetup : Setup :=
  { providers := [Provider.simulated 0 .sim [], Provider.simulated 0 second []]
    domains := [("demo", [spawning .sim true, spawning second false])]
    builtins := false }

/-- A node on each provider. -/
def spawningGraph : Graph :=
  { inputs := [("x", .float32)]
    nodes :=
      [{ name := "a", domain := "demo", op := "Spawn", inputs := ["x"], outputs := [""]
         provider := some .sim },
        { name := "b", domain := "demo", op := "Spawn", inputs := ["x"], outputs := [""]
          provider := some second }]
    outputs := [] }

/-- The first node is done and its job has panicked before the host goes on to the end; the worker of the
    second stream takes no step. -/
def hasty : List (Option Worker) :=
  let first : Option Worker := some ⟨0, 0⟩
  [none, first, first, first, first, first, none, none, none, first, none]

/-- The host is at its end, and the work of the second node is still where it was put. -/
theorem exists_hasty : ∃ (σ : System) (r : Run) (label : String) (job : NodeJob), Reached σ ∧
    σ.runs[0]? = some r ∧ r.isOver = true ∧ r.launchError = none ∧ r.failure = none ∧
    r.flushError = some (.stream (.jobPanicked "spawned")) ∧
    r.plan.streams.map Stream.worker? = [some ⟨0, 0⟩, some ⟨0, 1⟩] ∧
    (σ.machine.queue ⟨0, 1⟩).pending = [.run label job] ∧ job.run = 0 := by
  have hwhole : ∃ s m₁ events p life m₂ r₀ x r' label job,
      Session.start spawningSetup ({} : Machine NodeJob).addTimeline.2 = (.ok (s, m₁), events) ∧
      Plan.build s spawningGraph m₁ = ((.ok p, life), m₂) ∧
      Run.start p [("x", relayed)] = .ok r₀ ∧ (Execution.mk m₂ [r₀]).follow 0 hasty = some x ∧
      x.runs[0]? = some r' ∧ r'.isOver = true ∧ r'.launchError = none ∧ r'.failure = none ∧
      r'.flushError = some (.stream (.jobPanicked "spawned")) ∧
      r'.plan.streams.map Stream.worker? = [some ⟨0, 0⟩, some ⟨0, 1⟩] ∧
      (x.machine.queue ⟨0, 1⟩).pending = [.run label job] ∧ job.run = 0 :=
    ⟨_, _, _, _, _, _, _, _, _, _, _, rfl, rfl, rfl, rfl, rfl, rfl, rfl, rfl, rfl, rfl, rfl, rfl⟩
  obtain ⟨s, m₁, events, p, life, m₂, r₀, x, r, label, job, hstart, hbuild, hr₀, hfollow, hr, hover, hlaunch,
    hfailure, hflush, hstreams, hpending, hjob⟩ := hwhole
  have hdevice : Reached (({} : System).onMachine ({} : Machine NodeJob).addTimeline.2) :=
    .step .empty (.device _)
  have hon : ∀ p ∈ spawningSetup.providers, p.On ({} : Machine NodeJob).addTimeline.2 := by
    intro p hp d hd
    rcases List.mem_cons.mp hp with rfl | hp
    · obtain rfl := Option.some.inj hd
      exact Nat.one_pos
    · obtain rfl := List.mem_singleton.mp hp
      obtain rfl := Option.some.inj hd
      exact Nat.one_pos
  have hsession : Reached { sessions := [s], execution := ⟨m₁, []⟩ } := .step hdevice (.session hon hstart)
  have hprepare : Reached { sessions := [s], plans := [p], execution := ⟨m₂, []⟩ } :=
    .step hsession (.prepare List.mem_cons_self hbuild)
  have hbegin : Reached
      { sessions := [s], plans := [p], feeds := [[("x", relayed)]], execution := ⟨m₂, [r₀]⟩ } :=
    .step hprepare (.begin List.mem_cons_self hr₀)
  have hreached := hbegin.follow hfollow
  exact ⟨_, r, label, job, hreached, hr, hover, hlaunch, hfailure, hflush, hstreams, hpending, hjob⟩

/-- The stream whose flush failed is drained. -/
theorem flushed_streams_idle_hasty : ∃ (σ : System) (r : Run) (log : List (Nat × Instruction)),
    Chronicled σ log ∧ σ.runs[0]? = some r ∧ r.isOver = true ∧ r.flushError ≠ none ∧
    .flushed 0 ∈ carriedOut 0 log ∧ Run.Idle 0 (σ.machine.queue ⟨0, 0⟩).pending := by
  obtain ⟨σ, r, label, job, hreached, hr, hover, -, -, hflush, hstreams, -⟩ := exists_hasty
  obtain ⟨log, hlog⟩ := hreached.exists_chronicle
  obtain ⟨count, -, hmem, hidle, hfailed, -⟩ := flushed_streams_idle hlog hr hover
  have hne : r.flushError ≠ none := by simp [hflush]
  have hstream : (r.plan.streams[0]?).map Stream.worker? = some (some ⟨0, 0⟩) := by
    rw [← List.getElem?_map, hstreams]
    rfl
  obtain ⟨s, hs, hw⟩ := Option.map_eq_some_iff.mp hstream
  exact ⟨σ, r, log, hlog, hr, hover, hne, (hmem 0).mpr (hfailed hne), hidle 0 s _ (hfailed hne) hs hw⟩

/-- **Not every run drains every stream.** Everything was launched and nothing failed but the flush of the
    first stream; the host has returned, and work of the run waits on the second. -/
theorem streams_left_undrained : ∃ (σ : System) (r : Run), Reached σ ∧ σ.runs[0]? = some r ∧
    r.isOver = true ∧ r.launchError = none ∧ r.failure = none ∧
    r.flushError = some (.stream (.jobPanicked "spawned")) ∧ ¬r.Drained 0 σ.machine := by
  obtain ⟨σ, r, label, job, hreached, hr, hover, hlaunch, hfailure, hflush, hstreams, hpending, hjob⟩ :=
    exists_hasty
  refine ⟨σ, r, hreached, hr, hover, hlaunch, hfailure, hflush, fun hdrained => ?_⟩
  have hmem : some ⟨0, 1⟩ ∈ r.plan.streams.map Stream.worker? := by simp [hstreams]
  obtain ⟨s, hs, hw⟩ := List.mem_map.mp hmem
  refine hdrained s hs _ hw label job ?_ hjob
  rw [hpending]
  exact List.mem_singleton_self _

end System

end OpGraph
