import OpGraph.Proofs.Ledger

/-!
# `Proofs.Dispatch` — commands enqueued in any order, and workers in any order

In a workshop threads keep the rules of streams: a wait comes behind a record, and nobody flushes a stream
that was given up. Here nobody keeps any. Whoever has a stream or a marker enqueues what they like and when
they like, one record of a marker apart, and the workers go on in between (`Dispatch.Step`).

Beside the machine stands what it forgets: the commands that were put in queues, those that workers are done
with, each with how it ended (`Deed`), and the flushes that were asked for. What a queue holds is always what
was put in it and not done (`Queue.Accounted`), and what it knows of failures is what the deeds between one
flush and the next come to (`Deed.lots`).
-/

namespace OpGraph

open Machine

variable {Job State : Type}

/-! ## Deeds -/

/-- A command that its worker is done with. -/
structure Deed where
  worker : Worker
  command : Command Nat
  /-- Whether it was a job that panicked. -/
  panicked : Bool := false

namespace Deed

/-- What a deed leaves in the trace: a job that returned, or a marker. -/
def occurrence? (d : Deed) : Option Occurrence :=
  match d.command with
  | .run label _ => if d.panicked then none else some (.job label)
  | .fixed job => if d.panicked then none else some (.job job.label)
  | .record k => some (.marker k)
  | _ => none

/-- The label of a job that panicked. -/
def failure? (d : Deed) : Option String :=
  match d.command with
  | .run label _ => if d.panicked then some label else none
  | .fixed job => if d.panicked then some job.label else none
  | _ => none

/-- Whether it was a flush that was answered. -/
def flushes (d : Deed) : Bool := isFlush d.command

/-- The deeds of a worker. -/
def behind (w : Worker) (deeds : List Deed) : List Deed := deeds.filter fun d => d.worker = w

/-- Deeds from one flush to the next, the flushes left out. What came after the last flush is the last lot. -/
def lots (deeds : List Deed) : List (List Deed) := deeds.splitOnP flushes

/-- The first job of a lot that panicked. -/
def firstFailure? (lot : List Deed) : Option String := lot.findSome? failure?

/-- The first job that panicked since the last flush. -/
def sinceFlush? (deeds : List Deed) : Option String := (lots deeds).getLast?.bind firstFailure?

variable {w u : Worker} {ds more : List Deed} {d : Deed}

theorem behind_append : behind w (ds ++ more) = behind w ds ++ behind w more := List.filter_append ..

theorem behind_own (h : ∀ d ∈ more, d.worker = w) : behind w more = more :=
  List.filter_eq_self.mpr fun d hd => decide_eq_true (h d hd)

theorem behind_other (h : ∀ d ∈ more, d.worker = u) (hne : u ≠ w) : behind w more = [] :=
  List.filter_eq_nil_iff.mpr fun d hd => by simp [h d hd, hne]

theorem mem_behind : d ∈ behind w ds ↔ d ∈ ds ∧ d.worker = w := by simp [behind]

theorem flushes_of_command (h : d.command = .flush) : d.flushes = true := by
  rw [flushes, h]
  rfl

theorem countP_command (ds : List Deed) : (ds.map (·.command)).countP isFlush = ds.countP flushes := by
  rw [List.countP_map]
  rfl

theorem command_of_occurrence? {k : Nat} (h : d.occurrence? = some (.marker k)) : d.command = .record k := by
  unfold occurrence? at h
  split at h
  · split at h <;> cases h
  · split at h <;> cases h
  next i hd =>
    cases h
    exact hd
  · cases h

/-! A deed that is no flush joins the last lot, and a flush begins a new one. -/

theorem lots_flush (h : d.flushes = true) : lots (ds ++ [d]) = lots ds ++ [[]] :=
  List.splitOnP_append_cons ds [] h

theorem lots_other (ds : List Deed) (h : d.flushes = false) :
    ∃ closed last, lots ds = closed ++ [last] ∧ lots (ds ++ [d]) = closed ++ [last ++ [d]] := by
  unfold lots
  induction ds with
  | nil => exact ⟨[], [], rfl, by simp [List.splitOnP_cons_eq_if_modifyHead, h]⟩
  | cons a rest ih =>
      obtain ⟨closed, last, hlots, hnext⟩ := ih
      rw [List.cons_append, List.splitOnP_cons_eq_if_modifyHead, List.splitOnP_cons_eq_if_modifyHead, hlots,
        hnext]
      by_cases ha : a.flushes = true
      · rw [if_pos ha, if_pos ha]
        exact ⟨[] :: closed, last, rfl, rfl⟩
      · rw [if_neg ha, if_neg ha]
        cases closed with
        | nil => exact ⟨[], a :: last, rfl, rfl⟩
        | cons lot closed => exact ⟨(a :: lot) :: closed, last, rfl, rfl⟩

/-- There is one lot more than there are flushes. -/
theorem length_lots (ds : List Deed) : (lots ds).length = ds.countP flushes + 1 := by
  unfold lots
  induction ds with
  | nil => rfl
  | cons a rest ih =>
      rw [List.splitOnP_cons_eq_if_modifyHead, List.countP_cons]
      by_cases ha : a.flushes = true
      · simp [ha, ih]
      · simp [ha, ih]

/-- A flush is told by the number of those before it. -/
theorem before_unique {before before' after after' : List Deed} {f f' : Deed}
    (h : before ++ f :: after = before' ++ f' :: after') (hf : f.flushes = true) (hf' : f'.flushes = true)
    (hcount : before.countP flushes = before'.countP flushes) : before = before' := by
  rcases List.append_eq_append_iff.mp h with ⟨rest, rfl, hrest⟩ | ⟨rest, rfl, hrest⟩
  · cases rest with
    | nil => exact (List.append_nil _).symm
    | cons e rest =>
        obtain rfl := (List.cons.inj hrest).1
        rw [List.countP_append, List.countP_cons_of_pos hf] at hcount
        omega
  · cases rest with
    | nil => exact List.append_nil _
    | cons e rest =>
        obtain rfl := (List.cons.inj hrest).1
        rw [List.countP_append, List.countP_cons_of_pos hf'] at hcount
        omega

theorem firstFailure?_concat (lot : List Deed) (d : Deed) :
    firstFailure? (lot ++ [d]) = (firstFailure? lot).or d.failure? := by
  unfold firstFailure?
  rw [List.findSome?_append, List.findSome?_cons]
  cases d.failure? <;> rfl

end Deed

/-! ## One queue -/

theorem Command.isFlush_face (c : Command (Ticketed Job)) : isFlush c.face = isFlush c := by cases c <;> rfl

namespace Queue

variable {k k' : Queue (Ticketed Job)} {put : List (Command Nat)} {deeds : List Deed}

/-- A queue agrees with what was put in it and what its worker did: the commands that wait are those not done
    yet, and each answer is the first failure of its lot. -/
structure Accounted (k : Queue (Ticketed Job)) (put : List (Command Nat)) (deeds : List Deed) : Prop where
  commands : put = deeds.map (·.command) ++ k.pending.map Command.face
  reports : (Deed.lots deeds).map Deed.firstFailure? = k.replies ++ [k.failed]
  flushes : k.flushes = put.countP isFlush

theorem Accounted.fresh : ({} : Queue (Ticketed Job)).Accounted [] [] := ⟨rfl, rfl, rfl⟩

/-- Commands are put behind the others. -/
theorem Accounted.pushed (h : k.Accounted put deeds) {more : List (Command (Ticketed Job))}
    (hpending : k'.pending = k.pending ++ more) (hfailed : k'.failed = k.failed)
    (hreplies : k'.replies = k.replies) (hflushes : k'.flushes = k.flushes + more.countP isFlush) :
    k'.Accounted (put ++ more.map Command.face) deeds where
  commands := by rw [h.commands, hpending, List.map_append, List.append_assoc]
  reports := by rw [hreplies, hfailed, h.reports]
  flushes := by
    have hface : (isFlush ∘ Command.face : Command (Ticketed Job) → Bool) = isFlush :=
      funext Command.isFlush_face
    rw [hflushes, h.flushes, List.countP_append, List.countP_map, hface]

/-- The command in front is done with. -/
theorem Accounted.done (h : k.Accounted put deeds) {c : Command (Ticketed Job)} {d : Deed}
    {rest : List (Command (Ticketed Job))} (hpending : k.pending = c :: rest) (hpending' : k'.pending = rest)
    (hd : d.command = c.face)
    (hanswers : if d.flushes then k'.replies = k.replies ++ [k.failed] ∧ k'.failed = none
      else k'.replies = k.replies ∧ k'.failed = k.failed.or d.failure?)
    (hflushes : k'.flushes = k.flushes) : k'.Accounted put (deeds ++ [d]) where
  commands := by
    rw [h.commands, hpending, hpending', List.map_append, List.map_cons, ← hd, List.append_assoc]
    rfl
  reports := by
    have hreports := h.reports
    by_cases hflush : d.flushes = true
    · rw [if_pos hflush] at hanswers
      rw [Deed.lots_flush hflush, List.map_append, hreports, hanswers.1, hanswers.2]
      rfl
    · rw [if_neg hflush] at hanswers
      obtain ⟨closed, last, hlots, hnext⟩ := Deed.lots_other deeds (Bool.eq_false_iff.mpr hflush)
      rw [hlots, List.map_append, List.map_singleton] at hreports
      obtain ⟨hclosed, hlast⟩ := List.append_inj' hreports rfl
      rw [hnext, List.map_append, hclosed, List.map_singleton, Deed.firstFailure?_concat,
        List.singleton_inj.mp hlast, hanswers.1, hanswers.2]
  flushes := hflushes.trans h.flushes

/-- The job in front went on, and stays there. -/
theorem Accounted.resumed (h : k.Accounted put deeds) {c c' : Command (Ticketed Job)}
    {rest : List (Command (Ticketed Job))} (hpending : k.pending = c :: rest)
    (hpending' : k'.pending = c' :: rest) (hface : c'.face = c.face) (hreplies : k'.replies = k.replies)
    (hfailed : k'.failed = k.failed) (hflushes : k'.flushes = k.flushes) : k'.Accounted put deeds where
  commands := by rw [h.commands, hpending, hpending', List.map_cons, List.map_cons, hface]
  reports := by rw [hreplies, hfailed, h.reports]
  flushes := hflushes.trans h.flushes

/-- **A step of the job in front**: it is done with unless something is left of it, and puts its own jobs, and
    perhaps the end, behind the queue. -/
theorem Accounted.worked {exec : Executor Job State} (h : k.Accounted put deeds) {label : String}
    {job : Ticketed Job} {s s' : State} {e : JobEffect (Ticketed Job)}
    (hhead : k.pending.head? = some (.run label job)) (hrun : Ticketed.run exec job s = some (s', e))
    (w : Worker) :
    ∃ e₀, exec job.job s = some (s', e₀) ∧ (Timeline.worked label e k).Accounted (put ++ job.puts e₀ k)
      (deeds ++ if e₀.rest.isNone then [⟨w, .run label job.ticket, e₀.panicked⟩] else []) := by
  obtain ⟨e₀, hexec, hrest, hpanicked, hlaunched, hreleases⟩ :=
    Workshop.ticketed_run_eq_some hrun
  refine ⟨e₀, hexec, ?_⟩
  obtain ⟨rest, hpending⟩ := List.head?_eq_some_iff.mp hhead
  have hne : k.pending ≠ [] := fun hnil => by simp [hnil] at hpending
  obtain ⟨hreplies, hflushes⟩ := Timeline.worked_replies label e k
  have hfailed := Timeline.worked_failed label e k
  have hafter := Timeline.worked_pending_eq label e hne
  -- What it puts behind the queue it puts there as a host does, be it over or not.
  generalize hmore : (e.launched.map Command.fixed ++
    if e.rest.isNone && e.releases && k.shares = 1 then [Command.shutdown] else []) = more at hafter
  have hputs : more.map Command.face = job.puts e₀ k := by
    have hnone : e.rest.isNone = e₀.rest.isNone := by rw [hrest, Option.isNone_map]
    rw [← hmore, hlaunched, hreleases, hnone]
    unfold Ticketed.puts farewell
    cases e₀.rest.isNone <;> cases job.shares <;> by_cases hlast : k.shares = 1 <;>
      simp [hlast, Command.face]
  have hnoflush : more.countP isFlush = 0 := by
    refine List.countP_eq_zero.mpr fun c hc => ?_
    rw [← hmore] at hc
    rcases List.mem_append.mp hc with hfixed | hlast
    · obtain ⟨j, -, rfl⟩ := List.mem_map.mp hfixed
      exact Bool.false_ne_true
    · split at hlast
      · exact List.mem_singleton.mp hlast ▸ Bool.false_ne_true
      · cases hlast
  rw [← hputs]
  cases hleft : e₀.rest with
  | some left =>
      rw [hleft] at hrest
      rw [hrest, hpending] at hafter
      rw [hrest] at hfailed
      have hfront : ({ Timeline.worked label e k with
          pending := .run label { job with job := left } :: rest } : Queue (Ticketed Job)).Accounted put
            deeds :=
        h.resumed hpending rfl rfl hreplies hfailed hflushes
      have hnext : (Timeline.worked label e k).Accounted (put ++ more.map Command.face) deeds :=
        hfront.pushed (by simpa using hafter) rfl rfl (by simp [hnoflush])
      simpa using hnext
  | none =>
      rw [hleft] at hrest
      rw [hrest, hpending] at hafter
      rw [hrest, hpanicked] at hfailed
      have hgone : ({ Timeline.worked label e k with pending := rest } : Queue (Ticketed Job)).Accounted put
          (deeds ++ [⟨w, .run label job.ticket, e₀.panicked⟩]) := by
        refine h.done hpending rfl rfl ⟨hreplies, hfailed.trans ?_⟩ hflushes
        cases e₀.panicked <;> simp [Deed.failure?]
      exact hgone.pushed (by simpa using hafter) rfl rfl (by simp [hnoflush])

/-! ### Flushes that were answered -/

theorem Accounted.length_replies (h : k.Accounted put deeds) :
    k.replies.length = deeds.countP Deed.flushes := by
  have hlen := congrArg List.length h.reports
  rw [List.length_map, Deed.length_lots, List.length_append, List.length_singleton] at hlen
  omega

/-- **A flush that is done was answered** with the first job that panicked since the flush before it. -/
theorem Accounted.report (h : k.Accounted put deeds) {before after : List Deed} {d : Deed}
    (hdeeds : deeds = before ++ d :: after) (hflush : d.flushes = true) :
    k.replies[before.countP Deed.flushes]? = some (Deed.sinceFlush? before) := by
  have hlen := h.length_replies
  rw [hdeeds, List.countP_append, List.countP_cons_of_pos hflush] at hlen
  have hreports := congrArg (·[before.countP Deed.flushes]?) h.reports
  have hlots : Deed.lots deeds = Deed.lots before ++ Deed.lots after := by
    rw [hdeeds]
    exact List.splitOnP_append_cons before after hflush
  have hlast : (Deed.lots before).length - 1 = before.countP Deed.flushes := by
    rw [Deed.length_lots]
    rfl
  rw [hlots, List.map_append] at hreports
  rw [List.getElem?_append_left (by rw [List.length_map, Deed.length_lots]; omega),
    List.getElem?_append_left (by omega), List.getElem?_map, ← hlast, ← List.getLast?_eq_getElem?] at hreports
  rw [← hlast, ← hreports, Deed.sinceFlush?]
  cases hget : (Deed.lots before).getLast? with
  | none => exact absurd (List.getLast?_eq_none_iff.mp hget) (List.splitOnP_ne_nil _ _)
  | some lot => rfl

/-- A flush that was answered is done, and so is everything before it. -/
theorem Accounted.answered (h : k.Accounted put deeds) {earlier later : List (Command Nat)}
    (hput : put = earlier ++ .flush :: later) {reply : Option String}
    (hreply : k.replies[earlier.countP isFlush]? = some reply) :
    ∃ before d after, deeds = before ++ d :: after ∧ before.map (·.command) = earlier ∧ d.command = .flush := by
  have hcount : earlier.countP isFlush < (deeds.map (·.command)).countP isFlush := by
    rw [Deed.countP_command, ← h.length_replies]
    exact (List.getElem?_eq_some_iff.mp hreply).1
  rcases List.append_eq_append_iff.mp (h.commands.symm.trans hput) with
    ⟨rest, hearlier, -⟩ | ⟨rest, hmap, hrest⟩
  · rw [hearlier, List.countP_append] at hcount
    omega
  · cases rest with
    | nil =>
        rw [hmap, List.append_nil] at hcount
        exact absurd hcount (Nat.lt_irrefl _)
    | cons c rest =>
        injection hrest with hc _
        obtain ⟨before, tail, rfl, hbefore, htail⟩ := List.map_eq_append_iff.mp hmap
        obtain ⟨d, after, rfl, hd, -⟩ := List.map_eq_cons_iff.mp htail
        exact ⟨before, d, after, rfl, hbefore, hd.trans hc.symm⟩

end Queue

/-! ## Dispatching -/

/-- A flush that somebody asked for. -/
structure FlushCall where
  stream : Stream
  /-- The number by which its answer is found. -/
  number : Nat
  /-- What had been put in the queue before. -/
  earlier : List (Command Nat)
  /-- What it returned, if it did. -/
  answer : Option (Except StreamError Unit) := none

/-- A machine, with all that was put in its queues and all that was done. -/
structure Dispatch (Job State : Type) where
  machine : Machine (Ticketed Job) := {}
  /-- What jobs read and change. -/
  state : State
  /-- Number of jobs that were launched. -/
  jobs : Nat := 0
  put : List Slip := []
  deeds : List Deed := []
  calls : List FlushCall := []

namespace Dispatch

/-- What the worker is done with as it goes on with a command. -/
def done (exec : Executor Job State) (s : State) (w : Worker) : Command (Ticketed Job) → List Deed
  | .run label job =>
      match exec job.job s with
      | some (_, e) => if e.rest.isNone then [⟨w, .run label job.ticket, e.panicked⟩] else []
      | none => []
  | .fixed job => [⟨w, .fixed job, job.panics⟩]
  | c => [⟨w, c.face, false⟩]

/-- What is put behind a queue as its worker goes on with a command. -/
def adds (exec : Executor Job State) (s : State) (k : Queue (Ticketed Job)) :
    Command (Ticketed Job) → List (Command Nat)
  | .run _ job =>
      match exec job.job s with
      | some (_, e) => job.puts e k
      | none => []
  | _ => []

/-- One step of somebody: the host does something on a queue or a marker that is there, or a worker goes on. -/
inductive Step (exec : Executor Job State) (x : Dispatch Job State) : Dispatch Job State → Prop
  /-- A device of its own timeline is put up. -/
  | device : Step exec x { x with machine := x.machine.addTimeline.2 }
  /-- A queue is opened on a device, or on a peer of it. -/
  | stream {timeline : Nat} {provider : ProviderId} {s : Stream} {m : Machine (Ticketed Job)} :
      timeline < x.machine.timelines.length →
      (Device.sim timeline provider).openStream provider x.machine = .ok (s, m) →
      Step exec x { x with machine := m }
  /-- What jobs read is changed. -/
  | touch (state : State) : Step exec x { x with state }
  | share {s : Stream} {w : Worker} : s.worker? = some w → x.machine.Has w →
      Step exec x { x with machine := s.share x.machine }
  | release {s : Stream} {w : Worker} : s.worker? = some w → x.machine.Has w →
      Step exec x { x with
        machine := s.release x.machine
        put := x.put ++ (x.machine.queue w).farewell.map (Slip.mk w) }
  /-- A marker is made. -/
  | marker {s : Stream} {w : Worker} (consumers : Nat) : s.worker? = some w → x.machine.Has w →
      Step exec x { x with machine := (s.notification consumers x.machine).2 }
  | launch {s : Stream} {w : Worker} (label : String) (job : Job) (shares : Bool) :
      s.worker? = some w → x.machine.Has w →
      Step exec x { x with
        machine := (s.launch label ⟨x.jobs, job, shares⟩ (if shares then s.share x.machine else x.machine)).2
        jobs := x.jobs + 1
        put := x.put ++ [⟨w, .run label x.jobs⟩] }
  /-- A marker is recorded for the first time. -/
  | record {n : Notification} {w : Worker} {k : Nat} :
      n.stream.worker? = some w → n.marker? = some k → x.machine.Has w →
      k < x.machine.markerCount w.timeline → (∀ u, u.timeline = w.timeline → ⟨u, .record k⟩ ∉ x.put) →
      Step exec x { x with machine := n.record x.machine, put := x.put ++ [⟨w, .record k⟩] }
  /-- A queue is to wait for a marker, recorded or not. -/
  | wait {consumer : Stream} {n : Notification} {w u : Worker} {k : Nat} {m : Machine (Ticketed Job)} :
      consumer.worker? = some w → x.machine.Has w → n.stream.worker? = some u → n.marker? = some k →
      Workshop.deviceWait.complete (some consumer) n x.machine = some m →
      Step exec x { x with machine := m, put := x.put ++ [⟨w, .wait k⟩] }
  /-- A wait of the host for a marker returns. -/
  | resume {n : Notification} {u : Worker} {k : Nat} {m : Machine (Ticketed Job)} :
      n.stream.worker? = some u → n.marker? = some k →
      Workshop.hostWait.complete none n x.machine = some m → Step exec x { x with machine := m }
  | flush {s : Stream} {w : Worker} : s.worker? = some w → x.machine.Has w →
      Step exec x { x with
        machine := (s.postFlush x.machine).2
        put := x.put ++ [⟨w, .flush⟩]
        calls := x.calls ++ [⟨s, (s.postFlush x.machine).1, Slip.behind w x.put, none⟩] }
  /-- A flush returns. -/
  | answer {i : Nat} {c : FlushCall} {r : Except StreamError Unit} :
      x.calls[i]? = some c → c.answer = none → c.stream.flushReply? c.number x.machine = some r →
      Step exec x { x with calls := x.calls.set i { c with answer := some r } }
  | work {w : Worker} {c : Command (Ticketed Job)} {s' : State} {m' : Machine (Ticketed Job)} :
      x.machine.front? w = some c → x.machine.step (Ticketed.run exec) w x.state = some (s', m') →
      Step exec x { x with
        machine := m'
        state := s'
        put := x.put ++ (adds exec x.state (x.machine.queue w) c).map (Slip.mk w)
        deeds := x.deeds ++ done exec x.state w c }

/-- What can come about. -/
inductive Reached (exec : Executor Job State) : Dispatch Job State → Prop
  | start (state : State) : Reached exec { state }
  | step {x x' : Dispatch Job State} : Reached exec x → Step exec x x' → Reached exec x'

variable {exec : Executor Job State} {x x' : Dispatch Job State}

/-! ## What a step does -/

/-- What becomes of flushes as commands are put behind queues. -/
inductive Heard (x : Dispatch Job State) : List Slip → List FlushCall → Prop
  | nothing {slips : List Slip} : (∀ a ∈ slips, isFlush a.command = false) → Heard x slips x.calls
  /-- A flush is asked for, and its number is that of flushes asked for before. -/
  | asked {s : Stream} {w : Worker} : s.worker? = some w →
      Heard x [⟨w, .flush⟩] (x.calls ++ [⟨s, (x.machine.queue w).flushes, Slip.behind w x.put, none⟩])
  | answered {i : Nat} {c : FlushCall} {r : Except StreamError Unit} :
      x.calls[i]? = some c → c.answer = none → c.stream.flushReply? c.number x.machine = some r →
      Heard x [] (x.calls.set i { c with answer := some r })

/-- What the host does: it puts at most one command behind a queue, a record only of a marker that was not
    recorded before, and stamps at most the end of a wait of its own. -/
structure Hosted (x x' : Dispatch Job State) (slips : List Slip) : Prop where
  put : x'.put = x.put ++ slips
  one : slips.length ≤ 1
  deeds : x'.deeds = x.deeds
  calls : Heard x slips x'.calls
  pushes : ∃ more, Pushes x.machine x'.machine more ∧
    ∀ w, Slip.behind w slips = (more w).map Command.face
  records : ∀ w k, ⟨w, .record k⟩ ∈ slips → k < x.machine.markerCount w.timeline ∧
    ∀ u, u.timeline = w.timeline → ⟨u, .record k⟩ ∉ x.put
  events : ∀ t, ∃ resumed : List Nat, resumed.length ≤ 1 ∧ x'.machine.events t =
    x.machine.events t ++ resumed.map fun k => ⟨x.machine.nextTick t, none, .resume k⟩

theorem events_of_silent {m m' : Machine Job} (h : m.Silent m') (t : Nat) : ∃ resumed : List Nat,
    resumed.length ≤ 1 ∧ m'.events t = m.events t ++ resumed.map fun k => ⟨m.nextTick t, none, .resume k⟩ :=
  ⟨[], Nat.zero_le 1, (h t).trans (List.append_nil _).symm⟩

/-- A step that puts nothing anywhere and stamps nothing. -/
theorem Hosted.of_nothing (hput : x'.put = x.put) (hdeeds : x'.deeds = x.deeds) (hcalls : Heard x [] x'.calls)
    (hpushes : Pushes x.machine x'.machine nothing) (hsilent : x.machine.Silent x'.machine) :
    Hosted x x' [] where
  put := by rw [hput, List.append_nil]
  one := Nat.zero_le 1
  deeds := hdeeds
  calls := hcalls
  pushes := ⟨nothing, hpushes, fun _ => rfl⟩
  records := nofun
  events := events_of_silent hsilent

/-- A step that puts one command behind a queue and stamps nothing. -/
theorem Hosted.of_only {w : Worker} {c : Command (Ticketed Job)} (hput : x'.put = x.put ++ [⟨w, c.face⟩])
    (hdeeds : x'.deeds = x.deeds) (hcalls : Heard x [⟨w, c.face⟩] x'.calls)
    (hpushes : Pushes x.machine x'.machine (only w c)) (hsilent : x.machine.Silent x'.machine)
    (hrecord : ∀ k, c = .record k → k < x.machine.markerCount w.timeline ∧
      ∀ u, u.timeline = w.timeline → ⟨u, .record k⟩ ∉ x.put) : Hosted x x' [⟨w, c.face⟩] where
  put := hput
  one := Nat.le_refl 1
  deeds := hdeeds
  calls := hcalls
  pushes := by
    refine ⟨_, hpushes, fun u => ?_⟩
    by_cases hu : w = u
    · subst hu
      simp [Slip.behind, only]
    · simp [Slip.behind, only, hu, Ne.symm hu]
  records u k hmem := by
    injection List.mem_singleton.mp hmem with hu hk
    subst hu
    refine hrecord k ?_
    cases c <;> cases hk
    rfl
  events := events_of_silent hsilent

/-- Only a flush is heard of. -/
theorem Heard.of_unflushed {w : Worker} {c : Command Nat} (hc : isFlush c = false) : Heard x [⟨w, c⟩] x.calls :=
  .nothing fun _ ha => List.mem_singleton.mp ha ▸ hc

/-- Giving up a share of a queue puts the end behind it, or nothing. -/
theorem hosted_release {s : Stream} {w : Worker} (hs : s.worker? = some w) (hw : x.machine.Has w) :
    ∃ slips, Hosted x { x with
      machine := s.release x.machine
      put := x.put ++ (x.machine.queue w).farewell.map (Slip.mk w) } slips := by
  have hpushes := s.pushes_release_eq hs hw
  have hsilent := s.silent_release x.machine
  by_cases hlast : (x.machine.queue w).shares = 1
  · have hfarewell : (x.machine.queue w).farewell = [.shutdown] := if_pos hlast
    simp only [if_pos hlast] at hpushes
    refine ⟨_, .of_only (w := w) (c := .shutdown) ?_ rfl (.of_unflushed rfl) hpushes hsilent nofun⟩
    rw [hfarewell]
    rfl
  · have hfarewell : (x.machine.queue w).farewell = [] := if_neg hlast
    have hnothing : (fun u => if u = w then ([] : List (Command (Ticketed Job))) else []) = nothing :=
      funext fun u => ite_self _
    simp only [if_neg hlast] at hpushes
    refine ⟨_, .of_nothing ?_ rfl (.nothing nofun) (hnothing ▸ hpushes) hsilent⟩
    rw [hfarewell]
    exact List.append_nil _

/-- A wait of the host that returns leaves its event on the timeline, and changes nothing else. -/
theorem hosted_resume (t k : Nat) :
    Hosted x { x with machine := x.machine.modify t (·.stamp none (.resume k)) } [] := by
  have hpushes : Pushes x.machine (x.machine.modify t (·.stamp none (.resume k))) nothing :=
    Pushes.of_modify (fun _ => rfl) (fun _ _ => rfl) fun _ => Nat.le_refl _
  refine ⟨(List.append_nil _).symm, Nat.zero_le 1, rfl, .nothing nofun, ⟨_, hpushes, fun _ => rfl⟩, nofun,
    fun t => ?_⟩
  unfold events nextTick
  dsimp only
  rw [timeline_modify]
  split
  · exact ⟨[k], Nat.le_refl 1, rfl⟩
  · exact ⟨[], Nat.zero_le 1, (List.append_nil _).symm⟩

/-- **What a step does**: it is one of the host, or a worker goes on. -/
theorem Step.hosted_or_worked (h : Step exec x x') : (∃ slips, Hosted x x' slips) ∨
    ∃ w c s' m', x.machine.front? w = some c ∧
      x.machine.step (Ticketed.run exec) w x.state = some (s', m') ∧ x' = { x with
        machine := m'
        state := s'
        put := x.put ++ (adds exec x.state (x.machine.queue w) c).map (Slip.mk w)
        deeds := x.deeds ++ done exec x.state w c } := by
  cases h with
  | device =>
      exact Or.inl ⟨_, .of_nothing rfl rfl (.nothing nofun) (pushes_addTimeline x.machine)
        (silent_addTimeline x.machine)⟩
  | @stream timeline provider s m hlt hopen =>
      have hon : (Device.sim timeline provider).On x.machine := hlt
      exact Or.inl ⟨_, .of_nothing rfl rfl (.nothing nofun) (Plan.openStream_eq_ok hon hopen).pushes
        (Device.silent_openStream hopen)⟩
  | touch =>
      exact Or.inl ⟨_, .of_nothing rfl rfl (.nothing nofun) (Pushes.refl x.machine) (Silent.refl x.machine)⟩
  | @share s w hs hw =>
      exact Or.inl ⟨_, .of_nothing rfl rfl (.nothing nofun) (s.pushes_share (.of_has hs hw))
        (s.silent_share x.machine)⟩
  | @marker s w consumers hs hw =>
      exact Or.inl ⟨_, .of_nothing rfl rfl (.nothing nofun) (s.pushes_notification (.of_has hs hw) consumers).1
        (s.silent_notification consumers x.machine)⟩
  | answer hcall hopen hreply =>
      exact Or.inl ⟨_, .of_nothing rfl rfl (.answered hcall hopen hreply) (Pushes.refl x.machine)
        (Silent.refl x.machine)⟩
  | release hs hw => exact Or.inl (hosted_release hs hw)
  | @launch s w label job shares hs hw =>
      obtain ⟨hpushes, hsilent⟩ := Stream.pushes_launch_only hs hw label
        (⟨x.jobs, job, shares⟩ : Ticketed Job) shares
      exact Or.inl ⟨_, .of_only rfl rfl (.of_unflushed rfl) hpushes hsilent nofun⟩
  | @record n w k hs hk hw hlt hnew =>
      refine Or.inl ⟨_, .of_only rfl rfl (.of_unflushed rfl) (Notification.pushes_record_only hs hk hw)
        (n.silent_record x.machine) fun k' hk' => ?_⟩
      injection hk' with hk'
      exact hk' ▸ ⟨hlt, hnew⟩
  | @wait consumer n w u k m hs hw hu hk hcomplete =>
      obtain ⟨-, rfl⟩ := Workshop.complete_device hu hk hs hcomplete
      exact Or.inl ⟨_, .of_only (w := w) (c := .wait k) rfl rfl (.of_unflushed rfl)
        (Stream.pushes_push hw rfl) (silent_modify fun _ => rfl) nofun⟩
  | @resume n u k m hu hk hcomplete =>
      obtain ⟨-, -, rfl⟩ := Workshop.complete_host hu hk hcomplete
      exact Or.inl ⟨[], hosted_resume u.timeline k⟩
  | @flush s w hs hw =>
      obtain ⟨hpushes, hnumber⟩ := s.pushes_postFlush (.of_has hs hw)
      rw [Stream.putting_eq_only hs] at hpushes
      rw [hnumber w hs]
      exact Or.inl ⟨_, .of_only (w := w) (c := .flush) rfl rfl (.asked hs) hpushes
        (s.silent_postFlush x.machine) nofun⟩
  | @work w c s' m' hfront hstep => exact Or.inr ⟨w, c, s', m', hfront, hstep, rfl⟩

/-! ## Queues -/

/-- All queues agree with what was put in them and with what was done. -/
def Accounted (x : Dispatch Job State) : Prop :=
  ∀ w, (x.machine.queue w).Accounted (Slip.behind w x.put) (Deed.behind w x.deeds)

theorem Accounted.start (state : State) : ({ state } : Dispatch Job State).Accounted := fun _ => .fresh

theorem Accounted.hosted {slips : List Slip} (h : x.Accounted) (hs : Hosted x x' slips) : x'.Accounted := by
  intro w
  obtain ⟨more, hpushes, hbehind⟩ := hs.pushes
  rw [hs.put, hs.deeds, Slip.behind_append, hbehind]
  exact (h w).pushed (hpushes.pending w) (hpushes.failed w) (hpushes.replies w) (hpushes.flushes w)

/-- A worker is done with the command in front of its queue, or with a part of a job. -/
theorem Accounted.worked {w : Worker} {c : Command (Ticketed Job)} {s' : State} {m' : Machine (Ticketed Job)}
    (h : x.Accounted) (hfront : x.machine.front? w = some c)
    (hstep : x.machine.step (Ticketed.run exec) w x.state = some (s', m')) :
    (m'.queue w).Accounted (Slip.behind w x.put ++ adds exec x.state (x.machine.queue w) c)
      (Deed.behind w x.deeds ++ done exec x.state w c) := by
  obtain ⟨c', front, more, -, -, hhead, hpopped, htook⟩ := step_eq_some hstep
  obtain rfl : c = c' := Option.some.inj ((head?_of_front? hfront).symm.trans hhead)
  obtain ⟨rest, hbefore, hafter⟩ := hpopped.pending_eq hhead
  have plain : ∀ d : Deed, d.command = c.face → (m'.queue w).pending = [] ++ rest ++ [] →
      (if d.flushes then (m'.queue w).replies = (x.machine.queue w).replies ++ [(x.machine.queue w).failed] ∧
          (m'.queue w).failed = none
        else (m'.queue w).replies = (x.machine.queue w).replies ∧
          (m'.queue w).failed = (x.machine.queue w).failed.or d.failure?) →
      (m'.queue w).flushes = (x.machine.queue w).flushes →
      (m'.queue w).Accounted (Slip.behind w x.put ++ []) (Deed.behind w x.deeds ++ [d]) := by
    intro d hd hpending hanswers hflushes
    rw [List.nil_append, List.append_nil] at hpending
    rw [List.append_nil]
    exact (h w).done hbefore hpending hd hanswers hflushes
  cases htook with
  | run =>
      obtain ⟨c', g, -, -, hhead', hg, ⟨label', job', e', rfl, hrun, rfl⟩ | ⟨hjob, -⟩⟩ := step_alters hstep
      · obtain ⟨e₀, hexec, hworked⟩ := (h w).worked hhead' hrun w
        injection Option.some.inj (hhead.symm.trans hhead') with hlabel hticketed
        subst hlabel hticketed
        rw [hg.own]
        simp only [adds, done, hexec]
        exact hworked
      · exact absurd (Option.some.inj (hhead'.symm.trans hhead)) (hjob _ _)
  | @fixed job _ hreplies hflushes hfailed =>
      refine plain ⟨w, .fixed job, job.panics⟩ rfl hafter ⟨hreplies, hfailed.trans ?_⟩ hflushes
      cases job.panics <;> simp [Deed.failure?]
  | @record k _ hreplies hflushes hfailed =>
      exact plain ⟨w, .record k, false⟩ rfl hafter ⟨hreplies, hfailed.trans Option.or_none.symm⟩ hflushes
  | @wait k _ _ hreplies hflushes hfailed =>
      exact plain ⟨w, .wait k, false⟩ rfl hafter ⟨hreplies, hfailed.trans Option.or_none.symm⟩ hflushes
  | flush _ hreplies hflushes hfailed =>
      exact plain ⟨w, .flush, false⟩ rfl hafter ⟨hreplies, hfailed⟩ hflushes
  | shutdown _ hreplies hflushes hfailed =>
      exact plain ⟨w, .shutdown, false⟩ rfl hafter ⟨hreplies, hfailed.trans Option.or_none.symm⟩ hflushes

/-- What a worker is done with is its own. -/
theorem done_worker {s : State} {w : Worker} {c : Command (Ticketed Job)} {d : Deed}
    (h : d ∈ done exec s w c) : d.worker = w := by
  cases c with
  | run label job =>
      simp only [done] at h
      split at h
      · split at h
        · exact List.mem_singleton.mp h ▸ rfl
        · cases h
      · cases h
  | _ => exact List.mem_singleton.mp h ▸ rfl

/-- **Every step leaves the queues in agreement** with what was put in them and what was done. -/
theorem Accounted.step (h : x.Accounted) (hs : Step exec x x') : x'.Accounted := by
  rcases hs.hosted_or_worked with ⟨slips, hhosted⟩ | ⟨w, c, s', m', hfront, hstep, rfl⟩
  · exact h.hosted hhosted
  · intro u
    show (m'.queue u).Accounted (Slip.behind u (x.put ++ _)) (Deed.behind u (x.deeds ++ _))
    rw [Slip.behind_append, Deed.behind_append]
    by_cases hu : w = u
    · subst hu
      rw [Slip.behind_own, Deed.behind_own fun d hd => done_worker hd]
      exact h.worked hfront hstep
    · obtain ⟨_, _, _, _, -, hg, -⟩ := step_alters hstep
      rw [Slip.behind_other hu, Deed.behind_other (fun d hd => done_worker hd) hu, List.append_nil,
        List.append_nil, hg.others u (Ne.symm hu)]
      exact h u

theorem Reached.accounted (h : Reached exec x) : x.Accounted := by
  induction h with
  | start state => exact .start state
  | step _ hs ih => exact ih.step hs

end Dispatch

end OpGraph
