import Mathlib.Algebra.BigOperators.Group.Finset.Basic
import Mathlib.Logic.Hydra
import OpGraph.Proofs.Precedence
import OpGraph.Proofs.Shares

/-!
# `Proofs.Delivery` — queues neither block each other for good nor lose a command

A thread puts a wait in a queue only once it found the notification ready, and by then the record of the
marker was put in a queue. So of all commands that workers are not done with, the one put in first is in front
of its queue and waits for nothing (`Workshop.Ledgered.goes_on`), however queues wait for each other. Workers
that are left to themselves come to an end, as they only cut commands down (`Workshop.work_cutExpand`), and by
then everything that was put in a queue was taken from it (`Workshop.commands_delivered`).
-/

namespace OpGraph

open Machine

variable {Job State : Type}

/-- An entry of two lists in a row is one of the first list, or of the second behind all of the first. -/
theorem split_append {α : Type} {l more before after : List α} {a : α}
    (h : l ++ more = before ++ a :: after) :
    (∃ rest, l = before ++ a :: rest) ∨ (∃ rest, before = l ++ rest) ∧ a ∈ more := by
  rcases List.append_eq_append_iff.mp h with ⟨rest, hbefore, hmore⟩ | ⟨rest, hl, hafter⟩
  · exact Or.inr ⟨⟨rest, hbefore⟩, hmore ▸ List.mem_append_right _ List.mem_cons_self⟩
  · cases rest with
    | nil =>
        refine Or.inr ⟨⟨[], by rw [hl, List.append_nil, List.append_nil]⟩, ?_⟩
        rw [List.nil_append] at hafter
        exact hafter ▸ List.mem_cons_self
    | cons b rest =>
        injection hafter with heq _
        exact Or.inl ⟨rest, heq ▸ hl⟩

namespace Workshop

variable {exec : Executor Job State} {x x' : Workshop Job State} {l : Ledger} {w : Worker}

/-! ## Waits and records -/

theorem mem_slips {s : Stream} {c : Command Nat} {slip : Slip} (h : slip ∈ s.slips [c]) :
    s.worker? = some slip.worker ∧ slip.command = c := by
  unfold Stream.slips at h
  split at h
  next w hw =>
    obtain rfl : slip = ⟨w, c⟩ := by simpa using h
    exact ⟨hw, rfl⟩
  · cases h

/-- A wait that is put in a queue stands for a notification whose record was put in one before. -/
theorem recorded_of_wait (hf : x.Filed) (hst : x.Stocked) {a : Move Job State} {k : Nat}
    (hs : x.step exec a = some x') (hmem : ⟨w, .wait k⟩ ∈ x.puts exec a) :
    ∃ i u, x.mark? i = some (u, k) ∧ u.timeline = w.timeline ∧ .recorded i ∈ x.log := by
  have hfarewell : ∀ {s : Stream}, ⟨w, .wait k⟩ ∉ x.farewell s := by
    intro s h
    unfold farewell at h
    split at h
    · obtain ⟨c, hc, heq⟩ := List.mem_map.mp h
      rw [Queue.mem_farewell hc] at heq
      cases heq
    · cases h
  cases stepped_of_step hs with
  | launch => cases (mem_slips hmem).2
  | activate _ hn =>
      obtain ⟨u, k', -, -, -, hmark⟩ := hst.notification (notification?_eq_some hn)
      rw [puts_activate hmark] at hmem
      cases List.mem_singleton.mp hmem
  | flush => cases (mem_slips hmem).2
  | dropStream => exact absurd hmem hfarewell
  | dropNotification hn =>
      rw [puts_dropNotification (notification?_eq_some hn)] at hmem
      exact absurd hmem hfarewell
  | @proceed t c _ hc hp =>
      cases c with
      | onDevice consumer i =>
          -- A wait goes on when its notification was activated, which it is after its record was put in a queue.
          obtain ⟨n, hn, hp⟩ := Option.bind_eq_some_iff.mp hp
          obtain ⟨m, hm, -⟩ := Option.map_eq_some_iff.mp hp
          obtain ⟨⟨w', hw', -⟩, n', hn', hadmits⟩ := hst.threads _ (List.mem_of_getElem? hc)
          obtain rfl := Option.some.inj (hn.symm.trans hn')
          obtain ⟨u, k', hu, hk, -, hmark⟩ := hst.notification hn
          obtain ⟨hready, -⟩ := complete_device hu hk hw' hm
          rw [puts_onDevice hc hmark] at hmem
          obtain ⟨hw, hcommand⟩ := mem_slips hmem
          obtain rfl := Option.some.inj (hw'.symm.trans hw)
          injection hcommand with hmarker
          subst hmarker
          exact ⟨i, u, hmark, timeline_of_admits hu hw' hadmits, hf.activated i (hf.ready i n hn hready)⟩
      | _ =>
          rw [puts_proceed hc nofun] at hmem
          cases hmem
  | @work w' _ hw =>
      obtain ⟨c, s', m', hfront, -, -⟩ := work_eq_some hw
      cases c with
      | run label job =>
          simp only [puts, hfront] at hmem
          split at hmem
          next s₁ e hexec =>
            obtain ⟨c, hc, heq⟩ := List.mem_map.mp hmem
            injection heq with _ hwait
            subst hwait
            -- A job puts fixed jobs behind its queue, and its end with the last share.
            unfold Ticketed.puts at hc
            rcases List.mem_append.mp hc with hlaunched | hlast
            · obtain ⟨j, -, hfixed⟩ := List.mem_map.mp hlaunched
              cases hfixed
            · split at hlast
              · cases Queue.mem_farewell hlast
              · cases hlast
          · cases hmem
      | _ =>
          simp only [puts, hfront] at hmem
          cases hmem
  | _ => cases hmem

/-- A record that a worker is done with was in front of its queue. -/
theorem record_of_takes {a : Move Job State} {k : Nat} (hs : x.step exec a = some x')
    (hmem : ⟨w, .record k⟩ ∈ x.takes exec a) : ∃ front more news stamps,
      Worked x x' w (.record k) front more news stamps := by
  cases stepped_of_step hs with
  | @work w' _ hw =>
      obtain ⟨c, front, more, stamps, hfront, hwork⟩ := worked_of_work hw
      simp only [takes, hfront] at hmem
      cases c with
      | run label job =>
          simp only at hmem
          split at hmem
          · split at hmem
            · cases List.mem_singleton.mp hmem
            · cases hmem
          · cases hmem
      | record k' =>
          cases List.mem_singleton.mp hmem
          exact ⟨_, _, _, _, hwork⟩
      | _ => cases List.mem_singleton.mp hmem
  | _ => cases hmem

/-- What the log tells of notifications is in the ledger. -/
structure Traced (x : Workshop Job State) (l : Ledger) : Prop where
  recorded : ∀ i u k, .recorded i ∈ x.log → x.mark? i = some (u, k) → ⟨u, .record k⟩ ∈ l.put
  /-- A wait is put in a queue after the record. -/
  preceded : ∀ before after w k, l.put = before ++ ⟨w, .wait k⟩ :: after →
    ∃ i u, x.mark? i = some (u, k) ∧ u.timeline = w.timeline ∧ ⟨u, .record k⟩ ∈ before
  reached : ∀ u k, ⟨u, .record k⟩ ∈ l.taken → (x.machine.reachedAt u.timeline k).isSome

theorem Traced.step (h : x.Traced l) (hf : x.Filed) (hb : x.Booked) (hst : x.Stocked) {a : Move Job State}
    (hs : x.step exec a = some x')
    (hbalanced : x'.Balanced exec ⟨l.put ++ x.puts exec a, l.taken ++ x.takes exec a⟩) :
    x'.Traced ⟨l.put ++ x.puts exec a, l.taken ++ x.takes exec a⟩ where
  recorded i u k hrecorded hmark := by
    have hw := hst.went hs
    rcases hw.news hb.once hrecorded with hold | ⟨u', k', hmark', hmem⟩
    · exact List.mem_append_left _ (h.recorded i u k hold (hf.mark_before hw hold hmark))
    · obtain ⟨rfl, rfl⟩ := Prod.mk.inj (Option.some.inj ((hw.mark hmark').symm.trans hmark))
      have hcommands := (hbalanced.queues u' (Has.of_mem hmem)).commands
      refine Slip.mem_behind.mp (hcommands ▸ List.mem_append_right _ ?_)
      exact List.mem_map.mpr ⟨_, hmem, rfl⟩
  preceded before after w k heq := by
    have hw := hst.went hs
    rcases split_append heq with ⟨rest, hold⟩ | ⟨⟨rest, rfl⟩, hnew⟩
    · obtain ⟨i, u, hmark, ht, hmem⟩ := h.preceded before rest w k hold
      exact ⟨i, u, hw.mark hmark, ht, hmem⟩
    · -- The wait was put in just now.
      obtain ⟨i, u, hmark, ht, hrecorded⟩ := recorded_of_wait hf hst hs hnew
      exact ⟨i, u, hw.mark hmark, ht, List.mem_append_left _ (h.recorded i u k hrecorded hmark)⟩
  reached u k hmem := by
    have hw := hst.went hs
    rcases List.mem_append.mp hmem with hold | hnew
    · obtain ⟨tick, htick⟩ := Option.isSome_iff_exists.mp (h.reached u k hold)
      rw [hb.reachedAt hw htick]
      rfl
    · -- Only a marker of a notification is recorded, and so one of the timeline.
      obtain ⟨front, more, news, stamps, hwork⟩ := record_of_takes hs hnew
      refine hwork.recorded k rfl ?_
      have hkey : .inr k ∈ x.keys u := hwork.head_mem_keys rfl
      obtain ⟨i, hmark, -⟩ := (hb.records u k hkey).1
      obtain ⟨n, hn, hu, hk⟩ := mark?_eq_some.mp hmark
      obtain ⟨u', k', hu', hk', -, hlt⟩ := hst.notifications n (List.mem_of_getElem? hn)
      obtain rfl := Option.some.inj (hu.symm.trans hu')
      obtain rfl := Option.some.inj (hk.symm.trans hk')
      exact hlt

theorem Ledgered.traced (h : Ledgered exec x l) : x.Traced l := by
  induction h with
  | empty state strict => exact ⟨nofun, fun _ _ _ _ h => by simp at h, nofun⟩
  | step hl ha hs ih =>
      obtain ⟨hf, hb⟩ := hl.reached.booked
      exact ih.step hf hb hl.reached.stocked hs (hl.step ha hs).balanced.2

/-! ## Workers go on -/

/-- The first entry up to which something fails to hold. -/
theorem exists_first {α : Type} {P : List α → Prop} (h₀ : P []) {l : List α} (hl : ¬P l) :
    ∃ before a after, l = before ++ a :: after ∧ P before ∧ ¬P (before ++ [a]) := by
  induction l using List.reverseRecOn with
  | nil => exact absurd h₀ hl
  | append_singleton l a ih =>
      by_cases hholds : P l
      · exact ⟨l, a, [], rfl, hholds, hl⟩
      · obtain ⟨before, b, after, rfl, hbefore, hfirst⟩ := ih hholds
        exact ⟨before, b, after ++ [a], by simp, hbefore, hfirst⟩

/-- Workers are done with all of these. -/
def Done (l : Ledger) (slips : List Slip) : Prop := ∀ w, Slip.behind w slips <+: Slip.behind w l.taken

theorem Done.mem_taken {slips : List Slip} (h : Done l slips) {slip : Slip} (hslip : slip ∈ slips) :
    slip ∈ l.taken :=
  Slip.mem_behind.mp ((h slip.worker).subset (Slip.mem_behind.mpr hslip))

/-- Of all commands that workers are not done with, the one put in first is in front of its queue. -/
theorem Balanced.exists_oldest (h : x.Balanced exec l) (hw : (x.machine.queue w).pending ≠ []) :
    ∃ before u c after rest, l.put = before ++ ⟨u, c.face⟩ :: after ∧
      Done l before ∧ (x.machine.queue u).pending = c :: rest := by
  have hundone : ¬Done l l.put := by
    intro hdone
    have hle := (hdone w).length_le
    rw [h.commands w, List.length_append, List.length_map] at hle
    exact hw (List.length_eq_zero_iff.mp (by omega))
  obtain ⟨before, ⟨u, d⟩, after, hput, hbefore, hfirst⟩ :=
    exists_first (P := Done l) (fun u => List.nil_prefix) hundone
  obtain ⟨more, hmore⟩ := hbefore u
  -- The entry is in front of what its worker took beyond `before`, and of what waits behind that.
  have hfront : d :: Slip.behind u after = more ++ (x.machine.queue u).pending.map Command.face := by
    have hcommands := h.commands u
    rw [hput, Slip.behind_append, Slip.behind_cons_own, ← hmore, List.append_assoc] at hcommands
    exact List.append_cancel_left hcommands
  cases more with
  | nil =>
      cases hpending : (x.machine.queue u).pending with
      | nil =>
          rw [hpending] at hfront
          cases hfront
      | cons c rest =>
          rw [hpending] at hfront
          injection hfront with hface _
          exact ⟨before, u, c, after, rest, hface ▸ hput, hbefore, hpending⟩
  | cons d' more =>
      -- The worker is done with this entry too.
      injection hfront with hsame _
      subst hsame
      refine absurd (fun v => ?_) hfirst
      rw [Slip.behind_append]
      by_cases hv : u = v
      · subst hv
        rw [Slip.behind_cons_own, ← hmore]
        exact ⟨more, by simp [Slip.behind]⟩
      · rw [Slip.behind_cons_other hv]
        simpa [Slip.behind] using hbefore v

/-- **A worker can go on as long as a command waits anywhere.** -/
theorem Ledgered.goes_on (hgoes : ∀ job s, ∃ r, exec job s = some r) (h : Ledgered exec x l)
    (hw : (x.machine.queue w).pending ≠ []) : ∃ u, (x.step exec (.work u)).isSome := by
  have hbalanced := h.balanced.2
  obtain ⟨before, u, c, after, rest, hput, hdone, hpending⟩ := hbalanced.exists_oldest hw
  have hhead : (x.machine.queue u).pending.head? = some c := by rw [hpending]; rfl
  -- Where a worker left nothing waits.
  have hopen : (x.machine.queue u).closed = false := by
    refine Bool.eq_false_iff.mpr fun hclosed => ?_
    have hhas : x.machine.Has u := Has.of_mem (List.mem_of_mem_head? hhead)
    rw [(hbalanced.queues u hhas).pending_eq_nil hclosed] at hpending
    cases hpending
  have hrun : ∀ label job, c = .run label job → ∃ r, Ticketed.run exec job x.state = some r := by
    intro label job _
    obtain ⟨⟨s, e⟩, hexec⟩ := hgoes job.job x.state
    exact ⟨_, by rw [Ticketed.run, hexec]; rfl⟩
  -- What it may wait for was recorded before, and so was reached.
  have hwait : ∀ k, c = .wait k → (x.machine.reachedAt u.timeline k).isSome := by
    rintro k rfl
    obtain ⟨i, v, -, ht, hmem⟩ := h.traced.preceded before after u k hput
    rw [← ht]
    exact h.traced.reached v k (hdone.mem_taken hmem)
  obtain ⟨result, hstep⟩ := exists_step hopen hhead hrun hwait
  exact ⟨u, work_isSome hstep⟩

end Workshop

/-! ## Workers come to an end -/

/-- Jobs can always go on, and do so only so often. -/
structure Ending (exec : Executor Job State) : Prop where
  goes : ∀ job s, ∃ r, exec job s = some r
  ends : WellFounded fun left job => ∃ s s' e, exec job s = some (s', e) ∧ e.rest = some left

/-- What may be left of a command, or be put in the queue, by a step of the worker: less of a job, and
    commands that put nothing anywhere. -/
inductive Command.Below (exec : Executor Job State) :
    Command (Ticketed Job) → Command (Ticketed Job) → Prop
  | left {label : String} {job job' : Ticketed Job} {s s' : State} {e : JobEffect Job} :
      exec job.job s = some (s', e) → e.rest = some job'.job → Below exec (.run label job') (.run label job)
  | after {label : String} {job : Ticketed Job} {c : Command (Ticketed Job)} :
      (∀ label' job', c ≠ .run label' job') → Below exec c (.run label job)

/-- What puts nothing anywhere has nothing below it. -/
theorem Command.acc_below {exec : Executor Job State} {c : Command (Ticketed Job)}
    (hc : ∀ label job, c ≠ .run label job) : Acc (Below exec) c := by
  refine Acc.intro _ fun d hd => ?_
  cases hd with
  | left => exact absurd rfl (hc _ _)
  | after => exact absurd rfl (hc _ _)

theorem Ending.wellFounded_below {exec : Executor Job State} (h : Ending exec) :
    WellFounded (Command.Below exec) := by
  have hrun : ∀ (job : Job) (label : String) (ticket : Nat) (shares : Bool),
      Acc (Command.Below exec) (.run label ⟨ticket, job, shares⟩) := by
    -- Below a job is less of it, or what puts nothing anywhere.
    intro job
    induction job using h.ends.induction with
    | _ job ih =>
        intro label ticket shares
        refine Acc.intro _ fun d hd => ?_
        cases hd with
        | left hexec hrest => exact ih _ ⟨_, _, _, hexec, hrest⟩ label _ _
        | after hd => exact Command.acc_below hd
  refine ⟨fun c => ?_⟩
  cases c with
  | run label job => exact hrun job.job label job.ticket job.shares
  | _ => exact Command.acc_below nofun

/-- All commands that wait. -/
def Machine.load (m : Machine Job) : Multiset (Command Job) :=
  ∑ w ∈ m.workers.toFinset, ((m.queue w).pending : Multiset (Command Job))

/-- A worker takes the command in front away, and puts some in front and some behind. -/
theorem Machine.Popped.load {m m' : Machine Job} {w : Worker} {c : Command Job}
    {front more : List (Command Job)} (h : Popped m m' w front more)
    (hhead : (m.queue w).pending.head? = some c) :
    m'.load + {c} = m.load + ↑(front ++ more) := by
  obtain ⟨rest, hbefore, hafter⟩ := h.pending_eq hhead
  have hmem : w ∈ m.workers.toFinset :=
    List.mem_toFinset.mpr (mem_workers.mpr (Has.of_mem (List.mem_of_mem_head? hhead)))
  have hworkers : m'.workers.toFinset = m.workers.toFinset := by
    ext u
    rw [List.mem_toFinset, List.mem_toFinset, mem_workers, mem_workers, h.has]
  have hothers : ∑ u ∈ m.workers.toFinset.erase w, ((m'.queue u).pending : Multiset (Command Job)) =
      ∑ u ∈ m.workers.toFinset.erase w, ((m.queue u).pending : Multiset (Command Job)) :=
    Finset.sum_congr rfl fun u hu => by rw [h.others u (Finset.ne_of_mem_erase hu)]
  have hown : (↑(front ++ rest ++ more) : Multiset (Command Job)) + {c} =
      ↑(c :: rest) + ↑(front ++ more) := by
    simp only [← Multiset.coe_add, ← Multiset.cons_coe, ← Multiset.singleton_add]
    ac_rfl
  unfold Machine.load
  rw [hworkers, ← Finset.add_sum_erase _ _ hmem, ← Finset.add_sum_erase _ _ hmem, hothers, hbefore, hafter,
    add_right_comm, hown, add_right_comm]

namespace Workshop

variable {exec : Executor Job State} {x x' : Workshop Job State} {l : Ledger} {w : Worker}

/-- Every step of a worker cuts a command down. -/
theorem work_cutExpand (h : x.work exec w = some x') :
    Relation.CutExpand (Command.Below exec) x'.machine.load x.machine.load := by
  obtain ⟨c, s', m', -, hstep, rfl⟩ := work_eq_some h
  obtain ⟨c, front, more, -, -, hhead, hpopped, htook⟩ := step_eq_some hstep
  refine ⟨↑(front ++ more), c, fun d hd => ?_, hpopped.load hhead⟩
  have hd : d ∈ front ++ more := hd
  cases htook with
  | @run label job e _ ends hrun hends =>
      obtain ⟨e₀, hexec, hrest, -⟩ := ticketed_run_eq_some hrun
      rcases List.mem_append.mp hd with hleft | hmore
      · rw [hrest, Option.map_map] at hleft
        obtain ⟨left, hsome, rfl⟩ := Option.map_eq_some_iff.mp (Option.mem_toList.mp hleft)
        exact .left hexec hsome
      · rcases List.mem_append.mp hmore with hlaunched | hend
        · obtain ⟨j, -, rfl⟩ := List.mem_map.mp hlaunched
          exact .after nofun
        · rw [hends d hend]
          exact .after nofun
  | _ => cases hd

/-- Workers cannot go on forever. -/
theorem wellFounded_work (hexec : Ending exec) :
    WellFounded fun x' x : Workshop Job State => ∃ w, x.step exec (.work w) = some x' :=
  Subrelation.wf (fun ⟨_, hw⟩ => work_cutExpand hw)
    (InvImage.wf (fun x : Workshop Job State => x.machine.load) hexec.wellFounded_below.cutExpand)

/-! ## Delivery -/

theorem Ledgered.run (h : Ledgered exec x l) {moves : List (Move Job State)}
    (hsound : ∀ a ∈ moves, a.Sound exec) (hr : x.run exec moves = some x') :
    ∃ l', Ledgered exec x' l' ∧ l.put <+: l'.put := by
  induction moves generalizing x l with
  | nil => exact ⟨l, Option.some.inj hr ▸ h, List.prefix_rfl⟩
  | cons a rest ih =>
      obtain ⟨x₁, hstep, hrest⟩ := Option.bind_eq_some_iff.mp hr
      obtain ⟨l', hl', hprefix⟩ := ih (.step h (hsound a List.mem_cons_self) hstep)
        (fun b hb => hsound b (List.mem_cons_of_mem _ hb)) hrest
      exact ⟨l', hl', (List.prefix_append _ _).trans hprefix⟩

/-- What a workshop does with the commands in its queues, as its ledger tells. -/
structure Delivered (exec : Executor Job State) (x : Workshop Job State) (l : Ledger) : Prop where
  /-- A wait is put in a queue after the record of its marker was put in the queue of the stream that made the
      notification. -/
  preceded : ∀ before after w k, l.put = before ++ ⟨w, .wait k⟩ :: after →
    ∃ i u, x.mark? i = some (u, k) ∧ u.timeline = w.timeline ∧ ⟨u, .record k⟩ ∈ before
  /-- As long as a command waits in any queue some worker can go on. -/
  goes_on : ∀ w, (x.machine.queue w).pending ≠ [] → ∃ u, (x.step exec (.work u)).isSome
  /-- Commands are taken from each queue in the order in which they were put in it, each once, and all others
      wait. -/
  commands : ∀ w, Slip.behind w l.put =
    Slip.behind w l.taken ++ (x.machine.queue w).pending.map Command.face
  /-- A worker leaves as it takes the command that sends it home. -/
  closed : ∀ w, (x.machine.queue w).closed = true ↔ ⟨w, .shutdown⟩ ∈ l.taken
  /-- That command is the last one, and all others were taken before. -/
  left : ∀ w, (x.machine.queue w).closed = true → Slip.behind w l.taken = Slip.behind w l.put ∧
    ∃ cs, Slip.behind w l.put = cs ++ [.shutdown] ∧ .shutdown ∉ cs
  /-- Workers cannot go on forever. -/
  ends : ¬∃ f : Nat → Workshop Job State, f 0 = x ∧ ∀ n, ∃ w, (f n).step exec (.work w) = some (f (n + 1))
  /-- However workers go on, once none of them can everything that was put in a queue was taken, all markers
      that were recorded are reached, and the workers of queues that nobody holds have left. -/
  settled : ∀ (ws : List Worker) x', x.run exec (ws.map .work) = some x' →
    (∀ w, x'.step exec (.work w) = none) →
    (∃ l', Ledgered exec x' l' ∧ l.put <+: l'.put ∧ ∀ w, Slip.behind w l'.taken = Slip.behind w l'.put) ∧
    (∀ i u k, .recorded i ∈ x.log → x.mark? i = some (u, k) →
      (x'.machine.reachedAt u.timeline k).isSome) ∧
    ∀ w, x'.machine.Has w → x'.handles w = 0 → (x'.machine.queue w).closed = true

/-- A worker that left has taken everything, and what sent it home was last. -/
theorem Balanced.left (h : x.Balanced exec l) (hclosed : (x.machine.queue w).closed = true) :
    Slip.behind w l.taken = Slip.behind w l.put ∧
      ∃ cs, Slip.behind w l.put = cs ++ [.shutdown] ∧ .shutdown ∉ cs := by
  have hhas : x.machine.Has w := by
    by_contra hnot
    rw [queue_of_not_has hnot] at hclosed
    cases hclosed
  have hown := h.queues w hhas
  have hcommands := hown.commands
  rw [hown.pending_eq_nil hclosed, List.map_nil, List.append_nil] at hcommands
  refine ⟨hcommands.symm, hown.leaves (Nat.eq_zero_of_not_pos fun hpos => hown.stays hpos ?_)⟩
  rw [hcommands]
  exact hown.closed.mp hclosed

/-- Where nobody can go on nothing waits. -/
theorem Ledgered.idle (hexec : Ending exec) (h : Ledgered exec x l)
    (hidle : ∀ w, x.step exec (.work w) = none) (w : Worker) : (x.machine.queue w).pending = [] := by
  by_contra hne
  obtain ⟨u, hu⟩ := h.goes_on hexec.goes hne
  rw [hidle u] at hu
  cases hu

/-- Nobody holds the queue, and nothing waits in it: the worker has left. -/
theorem Balanced.closed_of_idle (h : x.Balanced exec l) (hw : x.machine.Has w)
    (hidle : (x.machine.queue w).pending = []) (hhandles : x.handles w = 0) :
    (x.machine.queue w).closed = true := by
  have hown := h.queues w hw
  have hshares := hown.shares
  have hcommands := hown.commands
  rw [hidle, hhandles] at hshares
  rw [hidle, List.map_nil, List.append_nil] at hcommands
  obtain ⟨cs, hlast, -⟩ := hown.leaves hshares
  rw [hown.closed, ← hcommands, hlast]
  exact List.mem_append_right _ (List.mem_singleton_self _)

/-- **Queues neither block each other for good nor lose a command**, whatever threads do with streams and
    notifications, in any order, as long as jobs come to an end. -/
theorem commands_delivered (hexec : Ending exec) (h : Ledgered exec x l) : x.Delivered exec l where
  preceded := h.traced.preceded
  goes_on _ hw := h.goes_on hexec.goes hw
  commands := h.balanced.2.commands
  closed := h.balanced.2.closed_iff
  left _ hclosed := h.balanced.2.left hclosed
  ends := by
    rintro ⟨f, -, hf⟩
    exact (wellFounded_iff_isEmpty_descending_chain.mp (wellFounded_work hexec)).false ⟨f, hf⟩
  settled ws x' hr hidle := by
    have hsound : ∀ a ∈ ws.map (Move.work : Worker → Move Job State), a.Sound exec := by
      intro a ha
      obtain ⟨w, -, rfl⟩ := List.mem_map.mp ha
      trivial
    obtain ⟨l', hl', hprefix⟩ := h.run hsound hr
    have hpending := hl'.idle hexec hidle
    have htaken : ∀ w, Slip.behind w l'.taken = Slip.behind w l'.put := by
      intro w
      rw [hl'.balanced.2.commands w, hpending w, List.map_nil, List.append_nil]
    refine ⟨⟨l', hl', hprefix, htaken⟩, fun i u k hrecorded hmark => ?_,
      fun w hw hhandles => hl'.balanced.2.closed_of_idle hw (hpending w) hhandles⟩
    have hput : ⟨u, .record k⟩ ∈ l'.put := hprefix.subset (h.traced.recorded i u k hrecorded hmark)
    refine hl'.traced.reached u k (Slip.mem_behind.mp ?_)
    rw [htaken]
    exact Slip.mem_behind.mpr hput

/-- Jobs that count down, and launch another with every step but the last. -/
def countdown : Executor Nat Unit
  | 0, s => some (s, {})
  | n + 1, s => some (s, { rest := some n, launched := [⟨"tick", false⟩] })

theorem ending_countdown : Ending countdown where
  goes job s := by cases job <;> exact ⟨_, rfl⟩
  ends := by
    refine Subrelation.wf (fun {left job} hleft => ?_) Nat.lt_wfRel.wf
    obtain ⟨s, s', e, hexec, hrest⟩ := hleft
    cases job with
    | zero =>
        obtain ⟨-, rfl⟩ := Prod.mk.inj (Option.some.inj hexec)
        cases hrest
    | succ n =>
        obtain ⟨-, rfl⟩ := Prod.mk.inj (Option.some.inj hexec)
        obtain rfl := Option.some.inj hrest
        exact Nat.lt_succ_self n

/-- A job and a marker behind one stream, a wait and a job behind another; the first stream and the
    notification are given up before any worker goes on. -/
def parting : List (Move Nat Unit) :=
  [.device, .thread, .thread, .stream 0 0 .sim, .stream 0 0 .sim, .launch 0 producer "make" 1 true,
    .notify 0 producer 1, .waitOnDevice 1 waiter 0, .activate 0 0, .proceed 0, .proceed 1,
    .launch 1 waiter "use" 0 true, .dropStream 0 producer, .dropNotification 0 0]

/-- The worker of the first queue until it leaves. -/
def leaving : List Worker := [⟨0, 0⟩, ⟨0, 0⟩, ⟨0, 0⟩, ⟨0, 0⟩, ⟨0, 0⟩]

/-- Nobody holds the first queue any more; its worker takes all of it before it leaves, and the marker is
    reached. -/
theorem commands_delivered_parting : ∃ (x x' : Workshop Nat Unit) (l l' : Ledger), Ending countdown ∧
    Ledgered countdown x l ∧ x.handles ⟨0, 0⟩ = 0 ∧ x.machine.reachedAt 0 0 = none ∧
    (∃ u, (x.step countdown (.work u)).isSome) ∧ x.run countdown (leaving.map .work) = some x' ∧
    Ledgered countdown x' l' ∧ (x'.machine.queue ⟨0, 0⟩).closed = true ∧
    Slip.behind ⟨0, 0⟩ l'.taken = Slip.behind ⟨0, 0⟩ l'.put ∧ (x'.machine.reachedAt 0 0).isSome := by
  have hrun : ∃ x x', Workshop.run countdown { state := () } parting = some x ∧ x.handles ⟨0, 0⟩ = 0 ∧
      x.machine.reachedAt 0 0 = none ∧ (x.machine.queue ⟨0, 0⟩).pending ≠ [] ∧
      x.run countdown (leaving.map .work) = some x' ∧ (x'.machine.queue ⟨0, 0⟩).closed = true ∧
      (x'.machine.reachedAt 0 0).isSome :=
    ⟨_, _, rfl, rfl, rfl, nofun, rfl, rfl, rfl⟩
  obtain ⟨x, x', hrun, hhandles, hnone, hpending, hrun', hclosed, hsome⟩ := hrun
  have hsound : ∀ a ∈ parting, a.Sound countdown := by simp [parting, Move.Sound]
  have hsound' : ∀ a ∈ leaving.map (Move.work : Worker → Move Nat Unit), a.Sound countdown := by
    simp [leaving, Move.Sound]
  obtain ⟨l, hl, -⟩ := (Ledgered.empty () true).run hsound hrun
  obtain ⟨l', hl', -⟩ := hl.run hsound' hrun'
  exact ⟨x, x', l, l', ending_countdown, hl, hhandles, hnone,
    (commands_delivered ending_countdown hl).goes_on ⟨0, 0⟩ hpending, hrun', hl', hclosed,
    ((commands_delivered ending_countdown hl').left ⟨0, 0⟩ hclosed).1, hsome⟩

end Workshop

end OpGraph
