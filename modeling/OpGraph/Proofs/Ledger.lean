import OpGraph.Proofs.Workshop

/-!
# `Proofs.Ledger` — what is put in queues, and what is taken from them

A queue holds the commands that wait, and forgets those that are gone. A ledger keeps both: all commands that
were put in queues, in the order in which threads and jobs put them there, and all that workers are done with
(`Workshop.Ledgered`). Here is what a ledger has to do with one queue (`Queue.Balanced`): what was put in is
what was taken and what waits, in this order; shares are counted against those who have them; and the command
that sends the worker home is the last one, put in with the last share.
-/

namespace OpGraph

open Machine

variable {Job State : Type}

/-! ## Entries -/

/-- A command as a ledger has it: a job goes by its number, however much of it is left. -/
def Command.face : Command (Ticketed Job) → Command Nat
  | .run label job => .run label job.ticket
  | .fixed job => .fixed job
  | .record k => .record k
  | .wait k => .wait k
  | .flush => .flush
  | .shutdown => .shutdown

/-- Whether a command keeps a share in its queue. -/
def Command.keeps : Command (Ticketed Job) → Bool
  | .run _ job => job.shares
  | _ => false

theorem Command.face_eq_shutdown {c : Command (Ticketed Job)} : c.face = .shutdown ↔ c = .shutdown := by
  cases c <;> simp [face]

/-- A command, and the worker whose queue it is in. -/
structure Slip where
  worker : Worker
  command : Command Nat

namespace Slip

variable {u w : Worker} {cs : List (Command Nat)} {slips more : List Slip}

/-- The commands in the queue of a worker. -/
def behind (w : Worker) (slips : List Slip) : List (Command Nat) :=
  slips.filterMap fun s => if s.worker = w then some s.command else none

theorem behind_append : behind w (slips ++ more) = behind w slips ++ behind w more :=
  List.filterMap_append

theorem mem_behind {c : Command Nat} : c ∈ behind w slips ↔ ⟨w, c⟩ ∈ slips := by
  unfold behind
  rw [List.mem_filterMap]
  constructor
  · rintro ⟨⟨u, d⟩, hmem, heq⟩
    simp only [Option.ite_none_right_eq_some, Option.some.injEq] at heq
    obtain ⟨rfl, rfl⟩ := heq
    exact hmem
  · exact fun hmem => ⟨⟨w, c⟩, hmem, if_pos rfl⟩

theorem behind_cons_own {c : Command Nat} : behind w (⟨w, c⟩ :: slips) = c :: behind w slips := by
  simp [behind]

theorem behind_cons_other {c : Command Nat} (h : u ≠ w) : behind w (⟨u, c⟩ :: slips) = behind w slips := by
  simp [behind, h]

theorem behind_own : behind w (cs.map (Slip.mk w)) = cs := by
  induction cs with
  | nil => rfl
  | cons c rest ih => rw [List.map_cons, behind_cons_own, ih]

theorem behind_other (h : u ≠ w) : behind w (cs.map (Slip.mk u)) = [] := by
  induction cs with
  | nil => rfl
  | cons c rest ih => rw [List.map_cons, behind_cons_other h, ih]

end Slip

/-- All commands that were put in queues, and all that workers are done with, each in order. -/
structure Ledger where
  put : List Slip := []
  taken : List Slip := []

/-- Commands behind the queue of a stream. -/
def Stream.slips (s : Stream) (cs : List (Command Nat)) : List Slip :=
  match s.worker? with
  | some w => cs.map (Slip.mk w)
  | none => []

theorem Stream.slips_eq {s : Stream} {w : Worker} (h : s.worker? = some w) (cs : List (Command Nat)) :
    s.slips cs = cs.map (Slip.mk w) := by
  unfold slips
  rw [h]

/-! ## What a step enters -/

/-- What is put in a queue as a share in it is given up. -/
def Queue.farewell (k : Queue Job) : List (Command Nat) := if k.shares = 1 then [.shutdown] else []

theorem Queue.mem_farewell {k : Queue Job} {c : Command Nat} (hc : c ∈ k.farewell) : c = .shutdown := by
  unfold farewell at hc
  split at hc
  · exact List.mem_singleton.mp hc
  · cases hc

/-- What a step of a job puts behind its queue. -/
def Ticketed.puts (job : Ticketed Job) (e : JobEffect Job) (k : Queue (Ticketed Job)) : List (Command Nat) :=
  e.launched.map .fixed ++ if e.rest.isNone && job.shares then k.farewell else []

/-- Jobs that put jobs behind their queue, now or later. -/
inductive Launches (exec : Executor Job State) : Job → Prop
  | now {job : Job} {s s' : State} {e : JobEffect Job} :
      exec job s = some (s', e) → e.launched ≠ [] → Launches exec job
  | later {job left : Job} {s s' : State} {e : JobEffect Job} :
      exec job s = some (s', e) → e.rest = some left → Launches exec left → Launches exec job

namespace Workshop

/-- A job that puts jobs behind its queue needs a stream to do so, and keeps its share in the queue. -/
def Move.Sound (exec : Executor Job State) : Move Job State → Prop
  | .launch _ _ _ job shares => Launches exec job → shares = true
  | _ => True

/-- What is put in the queue of a stream as the stream, or a notification of it, is given up. -/
def farewell (x : Workshop Job State) (s : Stream) : List Slip :=
  match s.worker? with
  | some w => (x.machine.queue w).farewell.map (Slip.mk w)
  | none => []

/-- What a step puts in queues. -/
def puts (exec : Executor Job State) (x : Workshop Job State) : Move Job State → List Slip
  | .launch _ s label _ _ => s.slips [.run label x.jobs.length]
  | .activate _ i =>
      match x.mark? i with
      | some (u, k) => [⟨u, .record k⟩]
      | none => []
  | .flush _ s => s.slips [.flush]
  | .dropStream _ s => x.farewell s
  | .dropNotification _ i =>
      match x.notifications[i]? with
      | some n => x.farewell n.stream
      | none => []
  | .proceed t =>
      match x.threads[t]? with
      | some (some (.onDevice consumer i)) =>
          match x.mark? i with
          | some (_, k) => consumer.slips [.wait k]
          | none => []
      | _ => []
  | .work w =>
      match x.machine.front? w with
      | some (.run _ job) =>
          match exec job.job x.state with
          | some (_, e) => (job.puts e (x.machine.queue w)).map (Slip.mk w)
          | none => []
      | _ => []
  | _ => []

/-- What a step is done with. A job that goes on later stays in front. -/
def takes (exec : Executor Job State) (x : Workshop Job State) : Move Job State → List Slip
  | .work w =>
      match x.machine.front? w with
      | some (.run label job) =>
          match exec job.job x.state with
          | some (_, e) => if e.rest.isNone then [⟨w, .run label job.ticket⟩] else []
          | none => []
      | some c => [⟨w, c.face⟩]
      | none => []
  | _ => []

section Puts

variable {exec : Executor Job State} {x : Workshop Job State} {t i k : Nat} {u : Worker}

theorem puts_activate (hmark : x.mark? i = some (u, k)) :
    x.puts exec (.activate t i) = [⟨u, .record k⟩] := by
  simp only [puts, hmark]

theorem puts_dropNotification {n : Notification} (hn : x.notifications[i]? = some n) :
    x.puts exec (.dropNotification t i) = x.farewell n.stream := by
  simp only [puts, hn]

theorem puts_onDevice {consumer : Stream} (hc : x.threads[t]? = some (some (.onDevice consumer i)))
    (hmark : x.mark? i = some (u, k)) : x.puts exec (.proceed t) = consumer.slips [.wait k] := by
  simp only [puts, hc, hmark]

theorem puts_proceed {c : Call} (hc : x.threads[t]? = some (some c))
    (hother : ∀ consumer i, c ≠ .onDevice consumer i) : x.puts exec (.proceed t) = [] := by
  cases c with
  | onDevice consumer i => exact absurd rfl (hother consumer i)
  | _ => simp only [puts, hc]

end Puts

/-- Workshops that can come about, with their ledgers. -/
inductive Ledgered (exec : Executor Job State) : Workshop Job State → Ledger → Prop
  | empty (state : State) (strict : Bool) : Ledgered exec { state, strict } {}
  | step {x x' : Workshop Job State} {l : Ledger} {a : Move Job State} :
      Ledgered exec x l → a.Sound exec → x.step exec a = some x' →
      Ledgered exec x' ⟨l.put ++ x.puts exec a, l.taken ++ x.takes exec a⟩

theorem Ledgered.reached {exec : Executor Job State} {x : Workshop Job State} {l : Ledger}
    (h : Ledgered exec x l) : Reached exec x := by
  induction h with
  | empty state strict => exact .empty state strict
  | step _ _ hs ih => exact ih.step hs

end Workshop

/-! ## One queue -/

namespace Queue

variable {exec : Executor Job State} {k k' : Queue (Ticketed Job)} {n : Nat} {put taken : List (Command Nat)}

/-- A queue agrees with what was put in it and what was taken from it, and its shares are those of so many
    handles and of the jobs in it. -/
structure Balanced (exec : Executor Job State) (k : Queue (Ticketed Job)) (handles : Nat)
    (put taken : List (Command Nat)) : Prop where
  commands : put = taken ++ k.pending.map Command.face
  shares : k.shares = handles + k.pending.countP Command.keeps
  /-- Nobody is sent home as long as there is a share. -/
  stays : 0 < k.shares → .shutdown ∉ put
  leaves : k.shares = 0 → ∃ cs, put = cs ++ [.shutdown] ∧ .shutdown ∉ cs
  closed : k.closed = true ↔ .shutdown ∈ taken
  jobs : ∀ label job, .run label job ∈ k.pending → Launches exec job.job → job.shares = true

theorem Balanced.fresh : ({} : Queue (Ticketed Job)).Balanced exec 1 [] [] where
  commands := rfl
  shares := rfl
  stays _ := List.not_mem_nil
  leaves h := nomatch h
  closed := by simp
  jobs _ _ h := nomatch h

theorem Balanced.shares_pos (h : k.Balanced exec n put taken) (hn : 0 < n) : 0 < k.shares := by
  have := h.shares
  omega

/-- Where the worker has left nothing waits. -/
theorem Balanced.pending_eq_nil (h : k.Balanced exec n put taken) (hclosed : k.closed = true) :
    k.pending = [] := by
  have htaken := h.closed.mp hclosed
  have hput : .shutdown ∈ put := by
    rw [h.commands]
    exact List.mem_append_left _ htaken
  have hshares : k.shares = 0 := Nat.eq_zero_of_not_pos fun hpos => h.stays hpos hput
  obtain ⟨cs, hlast, hnot⟩ := h.leaves hshares
  rcases List.eq_nil_or_concat k.pending with hnil | ⟨rest, c, hpending⟩
  · exact hnil
  · -- Something behind what sends the worker home would be last instead.
    have hcommands := h.commands
    rw [hlast, hpending, List.concat_eq_append, List.map_append, ← List.append_assoc] at hcommands
    have hfront := (List.append_inj' hcommands rfl).1
    exact absurd (hfront ▸ List.mem_append_left _ htaken) hnot

/-- There is one more handle. -/
theorem Balanced.shared (h : k.Balanced exec n put taken) (hn : 0 < n) :
    ({ k with shares := k.shares + 1 } : Queue (Ticketed Job)).Balanced exec (n + 1) put taken where
  commands := h.commands
  shares := by
    have := h.shares
    show k.shares + 1 = n + 1 + k.pending.countP Command.keeps
    omega
  stays _ := h.stays (h.shares_pos hn)
  leaves hzero := nomatch hzero
  closed := h.closed
  jobs := h.jobs

/-- Whoever has a handle puts a command behind the others. A job may keep a share of its own. -/
theorem Balanced.pushed (h : k.Balanced exec n put taken) (hn : 0 < n) (c : Command (Ticketed Job))
    (hc : c ≠ .shutdown) (hjob : ∀ label job, c = .run label job → Launches exec job.job → job.shares = true)
    (hpending : k'.pending = k.pending ++ [c]) (hshares : k'.shares = k.shares + if c.keeps then 1 else 0)
    (hclosed : k'.closed = k.closed) : k'.Balanced exec n (put ++ [c.face]) taken where
  commands := by
    rw [hpending, List.map_append, ← List.append_assoc, ← h.commands]
    rfl
  shares := by
    rw [hpending, List.countP_append, List.countP_singleton, hshares, h.shares, Nat.add_assoc]
  stays _ hmem := by
    rcases List.mem_append.mp hmem with hold | hnew
    · exact h.stays (h.shares_pos hn) hold
    · exact hc (Command.face_eq_shutdown.mp (List.mem_singleton.mp hnew).symm)
  leaves hzero := by
    have := h.shares_pos hn
    omega
  closed := hclosed ▸ h.closed
  jobs label job hmem := by
    rw [hpending] at hmem
    rcases List.mem_append.mp hmem with hold | hnew
    · exact h.jobs label job hold
    · exact hjob label job (List.mem_singleton.mp hnew).symm

/-- A handle is given up. -/
theorem Balanced.released (h : k.Balanced exec (n + 1) put taken) :
    (Timeline.released k).Balanced exec n (put ++ k.farewell) taken := by
  have hshares := h.shares
  unfold Timeline.released farewell
  split
  next hlast =>
    refine ⟨?_, ?_, nofun, fun _ => ⟨put, rfl, h.stays (by omega)⟩, h.closed, fun label job hmem => ?_⟩
    · show put ++ [Command.shutdown] = taken ++ (k.pending ++ [Command.shutdown]).map Command.face
      rw [List.map_append, ← List.append_assoc, ← h.commands]
      rfl
    · show 0 = n + (k.pending ++ [Command.shutdown]).countP Command.keeps
      rw [List.countP_append]
      show 0 = n + (k.pending.countP Command.keeps + 0)
      omega
    · rcases List.mem_append.mp hmem with hold | hnew
      · exact h.jobs label job hold
      · cases List.mem_singleton.mp hnew
  next hmany =>
    rw [List.append_nil]
    refine ⟨h.commands, ?_, fun _ => h.stays (by omega), fun hzero => ?_, h.closed, h.jobs⟩
    · show k.shares - 1 = n + k.pending.countP Command.keeps
      omega
    · have : k.shares - 1 = 0 := hzero
      omega

/-- The command in front is taken off; what share it kept is left for somebody else. -/
theorem Balanced.popped (h : k.Balanced exec n put taken) {c : Command (Ticketed Job)}
    {rest : List (Command (Ticketed Job))} (hpending : k.pending = c :: rest) (hpending' : k'.pending = rest)
    (hshares : k'.shares = k.shares) (hclosed : k'.closed = true ↔ k.closed = true ∨ c = .shutdown) :
    k'.Balanced exec (n + if c.keeps then 1 else 0) put (taken ++ [c.face]) where
  commands := by
    rw [hpending', List.append_assoc, h.commands, hpending]
    rfl
  shares := by
    rw [hshares, h.shares, hpending, List.countP_cons, hpending', Nat.add_assoc, Nat.add_comm (rest.countP _)]
  stays := hshares ▸ h.stays
  leaves := hshares ▸ h.leaves
  closed := by
    rw [hclosed, h.closed, List.mem_append, List.mem_singleton, eq_comm (a := Command.shutdown),
      Command.face_eq_shutdown]
  jobs label job hmem := by
    refine h.jobs label job ?_
    rw [hpending]
    exact List.mem_cons_of_mem _ (hpending' ▸ hmem)

/-! ### Jobs in front -/

/-- A job puts jobs behind its queue. -/
theorem Balanced.enqueued (h : k.Balanced exec n put taken) {js : List FixedJob}
    (hjs : js ≠ [] → 0 < k.shares) :
    (Timeline.enqueued js k).Balanced exec n (put ++ js.map .fixed) taken := by
  have hfixed : (js.map fun j => (.fixed j : Command (Ticketed Job))).countP Command.keeps = 0 := by
    refine List.countP_eq_zero.mpr fun c hc => ?_
    obtain ⟨j, -, rfl⟩ := List.mem_map.mp hc
    exact Bool.false_ne_true
  have hnone : .shutdown ∉ js.map (.fixed : FixedJob → Command Nat) := by simp
  refine ⟨?_, ?_, fun hpos hmem => ?_, fun hzero => ?_, h.closed, fun label job hmem => ?_⟩
  · show _ = taken ++ (k.pending ++ js.map Command.fixed).map Command.face
    rw [List.map_append, List.map_map, ← List.append_assoc, ← h.commands]
    rfl
  · show k.shares = n + (k.pending ++ js.map Command.fixed).countP Command.keeps
    rw [List.countP_append, hfixed, Nat.add_zero, h.shares]
  · exact (List.mem_append.mp hmem).elim (h.stays hpos) hnone
  · have hnil : js = [] := Classical.byContradiction fun hne => Nat.ne_of_gt (hjs hne) hzero
    rw [hnil, List.map_nil, List.append_nil]
    exact h.leaves hzero
  · rcases List.mem_append.mp hmem with hold | hnew
    · exact h.jobs label job hold
    · simp at hnew

/-- A job went a step further, and stays in front. -/
theorem Balanced.resumed (h : k.Balanced exec n put taken) {label : String} {job : Ticketed Job}
    {rest : List (Command (Ticketed Job))} (job' : Ticketed Job)
    (hpending : k.pending = .run label job :: rest)
    (hticket : job'.ticket = job.ticket) (hshare : job'.shares = job.shares)
    (hjob : Launches exec job'.job → Launches exec job.job)
    (hpending' : k'.pending = .run label job' :: rest) (hshares : k'.shares = k.shares)
    (hclosed : k'.closed = k.closed) : k'.Balanced exec n put taken where
  commands := by
    have hface : Command.face (.run label job') = Command.face (.run label job) := by
      simp only [Command.face, hticket]
    rw [h.commands, hpending, hpending', List.map_cons, List.map_cons, hface]
  shares := by
    have hkeeps : Command.keeps (.run label job') = Command.keeps (.run label job) := hshare
    rw [hshares, h.shares, hpending, hpending', List.countP_cons, List.countP_cons, hkeeps]
  stays := hshares ▸ h.stays
  leaves := hshares ▸ h.leaves
  closed := hclosed ▸ h.closed
  jobs label' job₁ hmem := by
    rw [hpending'] at hmem
    rcases List.mem_cons.mp hmem with heq | hrest
    · injection heq with _ hsame
      subst hsame
      intro hlaunches
      rw [hshare]
      exact h.jobs label job (hpending ▸ List.mem_cons_self) (hjob hlaunches)
    · exact h.jobs label' job₁ (hpending ▸ List.mem_cons_of_mem _ hrest)

/-- **A step of the job in front.** -/
theorem Balanced.worked (h : k.Balanced exec n put taken) {label : String} {job : Ticketed Job}
    {s s' : State} {e : JobEffect (Ticketed Job)} {e₀ : JobEffect Job}
    (hhead : k.pending.head? = some (.run label job)) (hexec : exec job.job s = some (s', e₀))
    (hrest : e.rest = e₀.rest.map fun left => { job with job := left })
    (hlaunched : e.launched = e₀.launched) (hreleases : e.releases = job.shares) :
    (Timeline.worked label e k).Balanced exec n (put ++ job.puts e₀ k)
      (taken ++ if e₀.rest.isNone then [.run label job.ticket] else []) := by
  obtain ⟨rest, hpending⟩ := List.head?_eq_some_iff.mp hhead
  have hmem : .run label job ∈ k.pending := hpending ▸ List.mem_cons_self
  -- A job that launches others has a share.
  have hpos : e.launched ≠ [] → 0 < k.shares := by
    intro hne
    have hshares := h.jobs label job hmem (.now hexec (hlaunched ▸ hne))
    have hkeeps : 0 < k.pending.countP Command.keeps := List.countP_pos_iff.mpr ⟨_, hmem, hshares⟩
    have := h.shares
    omega
  have hqueued := h.enqueued hpos
  have hfront : (Timeline.enqueued e.launched k).pending =
      .run label job :: (rest ++ e.launched.map .fixed) := by
    show k.pending ++ _ = _
    rw [hpending]
    rfl
  unfold Timeline.worked Ticketed.puts
  cases hleft : e₀.rest with
  | some left =>
      rw [hleft] at hrest
      rw [hrest, ← hlaunched]
      show ({ Timeline.enqueued e.launched k with
        pending := .run label { job with job := left } :: (Timeline.enqueued e.launched k).pending.tail } :
          Queue (Ticketed Job)).Balanced exec n (put ++ (_ ++ [])) (taken ++ [])
      rw [List.append_nil, List.append_nil]
      exact hqueued.resumed { job with job := left } hfront rfl rfl (.later hexec hleft)
        (by rw [hfront]; rfl) rfl rfl
  | none =>
      rw [hleft] at hrest
      rw [hrest, ← hlaunched]
      obtain ⟨failed, hended⟩ := Timeline.ended_eq label e.panicked
        { Timeline.enqueued e.launched k with pending := (Timeline.enqueued e.launched k).pending.tail }
      have hover : ({ Timeline.enqueued e.launched k with
          pending := (Timeline.enqueued e.launched k).pending.tail, failed } :
            Queue (Ticketed Job)).Balanced exec (n + if job.shares then 1 else 0)
              (put ++ e.launched.map .fixed) (taken ++ [.run label job.ticket]) :=
        hqueued.popped hfront (by rw [hfront]; rfl) rfl (or_iff_left nofun).symm
      show (if e.releases then Timeline.released (Timeline.ended label e.panicked _)
        else Timeline.ended label e.panicked _ : Queue (Ticketed Job)).Balanced exec n
          (put ++ (_ ++ if job.shares then k.farewell else [])) (taken ++ [.run label job.ticket])
      rw [hended, hreleases, ← List.append_assoc]
      cases hshare : job.shares with
      | true =>
          rw [hshare] at hover
          exact hover.released
      | false =>
          rw [hshare] at hover
          simpa using hover

end Queue

end OpGraph
