import OpGraph.Proofs.Booking
import OpGraph.Proofs.Reports

/-!
# `Proofs.Dispatched` — a workshop seen as a dispatch

Threads that keep the rules of streams do nothing that could not happen without the rules: each step in a
workshop is a step of a dispatch, or one that its machine knows nothing of (`Workshop.Dispatched.step`). What
is told of the trace and the flushes of every dispatch so is true of every workshop, and what a thread there
learned from a flush is the answer to one of the calls (`Workshop.Dispatched.flushed`).
-/

namespace OpGraph

open Machine

variable {Job State : Type}

/-- A flush that can return has returned, or does so now. -/
theorem Dispatch.Reached.exists_answered {exec : Executor Job State} {y : Dispatch Job State}
    (h : Reached exec y) {c : FlushCall} (hc : c ∈ y.calls) {r : Except StreamError Unit}
    (hreply : c.stream.flushReply? c.number y.machine = some r) : ∃ calls, Reached exec { y with calls } ∧
      (∀ d ∈ y.calls, ∃ d' ∈ calls, d'.stream = d.stream ∧ d'.number = d.number ∧
        ∀ r, d.answer = some r → d'.answer = some r) ∧
      ∃ d ∈ calls, d.stream = c.stream ∧ d.answer = some r := by
  cases hanswer : c.answer with
  | some r' =>
      obtain ⟨-, -, -, -, -, hkept⟩ := h.numbered.calls c hc
      obtain rfl := Option.some.inj (hreply.symm.trans (hkept r' hanswer))
      exact ⟨y.calls, h, fun d hd => ⟨d, hd, rfl, rfl, fun _ => id⟩, c, hc, rfl, hanswer⟩
  | none =>
      obtain ⟨i, hi⟩ := List.mem_iff_getElem?.mp hc
      have hset := List.mem_set (List.getElem?_eq_some_iff.mp hi).1 { c with answer := some r }
      refine ⟨_, h.step (.answer hi hanswer hreply), fun d hd => ?_, _, hset, rfl, rfl⟩
      obtain ⟨j, hj⟩ := List.mem_iff_getElem?.mp hd
      by_cases hij : i = j
      · subst hij
        obtain rfl := Option.some.inj (hi.symm.trans hj)
        refine ⟨_, hset, rfl, rfl, fun r' hr' => ?_⟩
        rw [hanswer] at hr'
        cases hr'
      · refine ⟨d, List.mem_of_getElem? (i := j) ?_, rfl, rfl, fun _ => id⟩
        rw [List.getElem?_set_ne hij, hj]

namespace Workshop

variable {exec : Executor Job State} {x x' : Workshop Job State} {y y' : Dispatch Job State}

/-- A workshop that is seen as a dispatch: the machine is the same, and the dispatch knows of what was
    recorded, of the flushes that threads wait for, and of what became of the others. -/
structure Dispatched (x : Workshop Job State) (y : Dispatch Job State) : Prop where
  machine : y.machine = x.machine
  state : y.state = x.state
  jobs : y.jobs = x.jobs.length
  recorded : ∀ u k, ⟨u, .record k⟩ ∈ y.put → x.Recorded u k
  asked : ∀ s number, some (.flushing s number) ∈ x.threads → ∃ c ∈ y.calls, c.stream = s ∧ c.number = number
  answered : ∀ s a, .flushed s a ∈ x.log →
    ∃ c ∈ y.calls, c.stream = s ∧ c.answer = some (a.elim (.ok ()) .error)

theorem Dispatched.start (state : State) (strict : Bool) :
    ({ state, strict } : Workshop Job State).Dispatched { state } where
  machine := rfl
  state := rfl
  jobs := rfl
  recorded := nofun
  asked := nofun
  answered := nofun

/-- A step that no flush is asked for or answered in. -/
theorem Dispatched.moved (h : x.Dispatched y) (hw : Went x x') (hmachine : y'.machine = x'.machine)
    (hstate : y'.state = x'.state) (hjobs : y'.jobs = x'.jobs.length) (hcalls : y'.calls = y.calls)
    (hput : ∀ u k, ⟨u, .record k⟩ ∈ y'.put → ⟨u, .record k⟩ ∈ y.put ∨ x'.Recorded u k)
    (hthreads : ∀ s n, some (.flushing s n) ∈ x'.threads → some (.flushing s n) ∈ x.threads)
    (hlog : ∀ s a, .flushed s a ∈ x'.log → .flushed s a ∈ x.log) : x'.Dispatched y' where
  machine := hmachine
  state := hstate
  jobs := hjobs
  recorded u k hmem := (hput u k hmem).elim (fun hold => hw.recorded (h.recorded u k hold)) id
  asked s n hmem := hcalls ▸ h.asked s n (hthreads s n hmem)
  answered s a hmem := hcalls ▸ h.answered s a (hlog s a hmem)

/-- Issuing a wait is no step of a dispatch. -/
theorem Dispatched.issue (h : x.Dispatched y) {t i : Nat} {n : Notification} {f : WaitFunction}
    {consumer : Option Stream} {c : Call} (hc : ∀ s number, c ≠ .flushing s number)
    (hw : Went x (x.issue t i n f consumer c)) : (x.issue t i n f consumer c).Dispatched y := by
  obtain ⟨k, threads, log, heq, hissued⟩ := x.issue_eq t i n f consumer c
  rw [heq] at hw ⊢
  refine h.moved hw h.machine h.state h.jobs rfl (fun _ _ => Or.inl) (fun s number hs => ?_) fun s a ha => ?_
  · rcases hissued with ⟨-, rfl, -⟩ | ⟨rfl, -⟩
    · exact (mem_set_threads hs).resolve_right fun hsame => hc s number hsame.symm
    · exact hs
  · rcases hissued with ⟨-, -, rfl⟩ | ⟨-, e, rfl⟩
    · exact ha
    · simpa using ha

/-- A flush was asked for. -/
theorem Dispatched.flush (h : x.Dispatched y) {t : Nat} {s : Stream} {w : Worker} {earlier : List (Command Nat)}
    (hput : y'.put = y.put ++ [⟨w, .flush⟩]) (hmachine : y'.machine = (s.postFlush x.machine).2)
    (hstate : y'.state = y.state) (hjobs : y'.jobs = y.jobs)
    (hcalls : y'.calls = y.calls ++ [⟨s, (s.postFlush x.machine).1, earlier, none⟩])
    (hw : Went x ({ x with machine := (s.postFlush x.machine).2 }.busy t
      (.flushing s (s.postFlush x.machine).1))) :
    ({ x with machine := (s.postFlush x.machine).2 }.busy t
      (.flushing s (s.postFlush x.machine).1)).Dispatched y' where
  machine := hmachine
  state := hstate.trans h.state
  jobs := hjobs.trans h.jobs
  recorded u k hmem := by
    rw [hput] at hmem
    exact hw.recorded (h.recorded u k (by simpa using hmem))
  asked s' number hmem := by
    rw [hcalls]
    rcases mem_set_threads hmem with hold | hnew
    · obtain ⟨c, hc, hrest⟩ := h.asked s' number hold
      exact ⟨c, List.mem_append_left _ hc, hrest⟩
    · injection hnew with hs hnumber
      exact ⟨_, List.mem_append_right _ (List.mem_singleton_self _), hs.symm, hnumber.symm⟩
  answered s' a hmem := by
    rw [hcalls]
    obtain ⟨c, hc, hrest⟩ := h.answered s' a hmem
    exact ⟨c, List.mem_append_left _ hc, hrest⟩

/-- Somebody learns what a flush returned. -/
theorem Dispatched.answer (h : x.Dispatched y) (hy : Dispatch.Reached exec y) {t number : Nat} {s : Stream}
    {r : Except StreamError Unit} {a : Option StreamError} (hc : some (.flushing s number) ∈ x.threads)
    (hreply : s.flushReply? number x.machine = some r) (ha : a.elim (.ok ()) .error = r)
    (hw : Went x (x.done t (.flushed s a))) :
    ∃ y', Dispatch.Reached exec y' ∧ (x.done t (.flushed s a)).Dispatched y' := by
  obtain ⟨c, hmem, rfl, rfl⟩ := h.asked s number hc
  obtain ⟨calls, hy', hcalls, d, hd, hstream, hanswer⟩ := hy.exists_answered hmem (h.machine ▸ hreply)
  refine ⟨_, hy', h.machine, h.state, h.jobs, fun u k hk => hw.recorded (h.recorded u k hk),
    fun s' number' hs' => ?_, fun s' a' ha' => ?_⟩
  · obtain ⟨e, he, rfl, rfl⟩ := h.asked s' number' (mem_set_none hs')
    obtain ⟨e', he', hsame, hnumber, -⟩ := hcalls e he
    exact ⟨e', he', hsame, hnumber⟩
  · rcases List.mem_append.mp ha' with hold | hnew
    · obtain ⟨e, he, rfl, hanswer⟩ := h.answered s' a' hold
      obtain ⟨e', he', hsame, -, hkept⟩ := hcalls e he
      exact ⟨e', he', hsame, hkept _ hanswer⟩
    · injection List.mem_singleton.mp hnew with hs' hsame
      subst hs'
      exact ⟨d, hd, hstream, by rw [hanswer, hsame, ha]⟩

theorem Dispatched.proceed (h : x.Dispatched y) (hy : Dispatch.Reached exec y) (hst : x.Stocked) {t : Nat}
    {c : Call} (hc : some c ∈ x.threads) (hp : x.proceed t c = some x') (hw : Went x x') :
    ∃ y', Dispatch.Reached exec y' ∧ x'.Dispatched y' := by
  cases c with
  | activating i =>
      obtain ⟨n, hn, rfl⟩ := Option.map_eq_some_iff.mp hp
      exact ⟨y, hy, h.moved hw h.machine h.state h.jobs rfl (fun _ _ => Or.inl) (fun _ _ => mem_set_none)
        (by simp [done, put])⟩
  | onDevice consumer i =>
      obtain ⟨n, hn, hp⟩ := Option.bind_eq_some_iff.mp hp
      obtain ⟨m, hm, rfl⟩ := Option.map_eq_some_iff.mp hp
      obtain ⟨⟨w, hconsumer, hhas⟩, -⟩ := hst.threads _ hc
      obtain ⟨u, k, hu, hk, -, -⟩ := hst.notification hn
      have hstep := hy.step (.wait hconsumer (h.machine ▸ hhas) hu hk (h.machine ▸ hm))
      exact ⟨_, hstep, h.moved hw rfl h.state h.jobs rfl (fun u k hmem => Or.inl (by simpa using hmem))
        (fun _ _ => mem_set_none) (by simp [done])⟩
  | onHost i =>
      obtain ⟨n, hn, hp⟩ := Option.bind_eq_some_iff.mp hp
      obtain ⟨m, hm, rfl⟩ := Option.map_eq_some_iff.mp hp
      obtain ⟨u, k, hu, hk, -, -⟩ := hst.notification hn
      have hstep := hy.step (.resume hu hk (h.machine ▸ hm))
      exact ⟨_, hstep, h.moved hw rfl h.state h.jobs rfl (fun _ _ => Or.inl) (fun _ _ => mem_set_none)
        (by simp [done])⟩
  | flushing s number =>
      obtain ⟨r, hr, rfl⟩ := Option.map_eq_some_iff.mp hp
      cases r with
      | ok => exact h.answer hy hc hr rfl hw
      | error e => exact h.answer hy hc hr rfl hw

/-- Only what a workshop knows nothing of is left open. -/
theorem Dispatched.exists_eq (h : x.Dispatched y) :
    ∃ put deeds calls, y = ⟨x.machine, x.state, x.jobs.length, put, deeds, calls⟩ := by
  obtain ⟨m, s, j, put, deeds, calls⟩ := y
  obtain ⟨rfl, rfl, rfl⟩ : m = x.machine ∧ s = x.state ∧ j = x.jobs.length := ⟨h.machine, h.state, h.jobs⟩
  exact ⟨put, deeds, calls, rfl⟩

/-- A job was launched. -/
theorem Dispatched.launch (h : x.Dispatched y) (hy : Dispatch.Reached exec y) (hst : x.Stocked) {s : Stream}
    {label : String} {job : Job} {shares : Bool} (hmem : s ∈ x.streams)
    (hw : Went x (x.launch s label job shares)) :
    ∃ y', Dispatch.Reached exec y' ∧ (x.launch s label job shares).Dispatched y' := by
  obtain ⟨put, deeds, calls, rfl⟩ := h.exists_eq
  obtain ⟨w, hs, hhas⟩ := hst.streams s hmem
  refine ⟨_, hy.step (.launch label job shares hs hhas),
    h.moved hw rfl rfl ?_ rfl (fun u k hk => Or.inl ?_) (fun _ _ => id) ?_⟩
  · simp [Workshop.launch]
  · simpa using hk
  · simp [Workshop.launch]

/-- A marker was put behind its stream, for the first time. -/
theorem Dispatched.activate (h : x.Dispatched y) (hy : Dispatch.Reached exec y) (hx : Reached exec x)
    {t i : Nat} {n : Notification} (hnew : .recorded i ∉ x.log) (hn : x.notification? i = some n)
    (hw : Went x { x.busy t (.activating i) with
      machine := n.record x.machine, log := x.log ++ [.recorded i] }) :
    ∃ y', Dispatch.Reached exec y' ∧ Dispatched
      { x.busy t (.activating i) with machine := n.record x.machine, log := x.log ++ [.recorded i] } y' := by
  obtain ⟨put, deeds, calls, rfl⟩ := h.exists_eq
  have hn' := notification?_eq_some hn
  obtain ⟨u, k, hu, hk, hhas, hlt⟩ := hx.stocked.notifications n (List.mem_of_getElem? hn')
  have hmark : x.mark? i = some (u, k) := mark?_eq_some.mpr ⟨n, hn', hu, hk⟩
  have hfresh : ∀ v : Worker, v.timeline = u.timeline → ⟨v, .record k⟩ ∉ put := by
    intro v hv hmem
    obtain ⟨j, hj, hlog⟩ := h.recorded v k hmem
    obtain rfl := hx.booked.1.marks j i v u k hj hmark hv
    exact hnew hlog
  refine ⟨_, hy.step (.record hu hk hhas hlt hfresh),
    h.moved hw rfl rfl rfl rfl (fun v k' hmem => ?_) (fun s number hs => ?_) (by simp)⟩
  · refine (List.mem_append.mp hmem).imp id fun hlast => ?_
    injection List.mem_singleton.mp hlast with hv hk'
    injection hk' with hk'
    exact ⟨i, by rw [hv, hk']; exact hw.mark hmark, by simp⟩
  · exact (mem_set_threads hs).resolve_right nofun

/-- A share of a queue was given up, which puts at most the end behind it. -/
theorem Dispatched.release (h : x.Dispatched y) (hy : Dispatch.Reached exec y) {s : Stream} {w : Worker}
    (hs : s.worker? = some w) (hhas : x.machine.Has w) {streams : List Stream} {dropped : List Nat}
    (hw : Went x { x with machine := s.release x.machine, streams, dropped }) :
    ∃ y', Dispatch.Reached exec y' ∧
      Dispatched { x with machine := s.release x.machine, streams, dropped } y' := by
  obtain ⟨put, deeds, calls, rfl⟩ := h.exists_eq
  refine ⟨_, hy.step (.release hs hhas),
    h.moved hw rfl rfl rfl rfl (fun u k hmem => Or.inl ?_) (fun _ _ => id) fun _ _ => id⟩
  refine (List.mem_append.mp hmem).resolve_right fun hlast => ?_
  obtain ⟨c, hc, heq⟩ := List.mem_map.mp hlast
  rw [Queue.mem_farewell hc] at heq
  cases heq

/-- A worker went on. -/
theorem Dispatched.work (h : x.Dispatched y) (hy : Dispatch.Reached exec y) {w : Worker}
    (hwork : x.work exec w = some x') (hw : Went x x') : ∃ y', Dispatch.Reached exec y' ∧ x'.Dispatched y' := by
  obtain ⟨put, deeds, calls, rfl⟩ := h.exists_eq
  obtain ⟨c', _, _, _, hfront', hworked⟩ := worked_of_work hwork
  obtain ⟨c, s', m', hfront, hstep, rfl⟩ := work_eq_some hwork
  obtain rfl := Option.some.inj (hfront.symm.trans hfront')
  refine ⟨_, hy.step (.work hfront hstep),
    h.moved hw rfl rfl rfl rfl (fun u k hmem => Or.inl ?_) (fun _ _ => id) fun s a ha => ?_⟩
  · refine (List.mem_append.mp hmem).resolve_right fun hlast => ?_
    obtain ⟨d, hd, heq⟩ := List.mem_map.mp hlast
    injection heq with _ hk
    exact (Dispatch.of_mem_adds hd).2 k hk
  · refine (List.mem_append.mp ha).resolve_right fun hlast => ?_
    rcases hworked.news_one with hnone | ⟨j, tick, hended⟩
    · rw [hnone] at hlast
      cases hlast
    · rw [hended] at hlast
      cases List.mem_singleton.mp hlast

/-- **A step in a workshop is one of the steps of a dispatch**, or changes nothing there. -/
theorem Dispatched.step (h : x.Dispatched y) (hy : Dispatch.Reached exec y) (hx : Reached exec x)
    {a : Move Job State} (hs : x.step exec a = some x') :
    ∃ y', Dispatch.Reached exec y' ∧ x'.Dispatched y' := by
  have hst := hx.stocked
  have hw := hst.went hs
  obtain ⟨put, deeds, calls, rfl⟩ := h.exists_eq
  cases stepped_of_step hs with
  | device =>
      exact ⟨_, hy.step .device,
        h.moved hw rfl rfl rfl rfl (fun _ _ => Or.inl) (fun _ _ => id) fun _ _ => id⟩
  | thread =>
      exact ⟨_, hy, h.moved hw rfl rfl rfl rfl (fun _ _ => Or.inl) (by simp) fun _ _ => id⟩
  | stream hlt ho =>
      exact ⟨_, hy.step (.stream hlt ho),
        h.moved hw rfl rfl rfl rfl (fun _ _ => Or.inl) (fun _ _ => id) fun _ _ => id⟩
  | launch hmem => exact h.launch hy hst hmem hw
  | @notify _ consumers s hmem =>
      obtain ⟨w, hs, hhas⟩ := hst.streams s hmem
      exact ⟨_, hy.step (.marker consumers hs hhas),
        h.moved hw rfl rfl rfl rfl (fun _ _ => Or.inl) (fun _ _ => id) fun _ _ => id⟩
  | activate hnew hn => exact h.activate hy hx hnew hn hw
  | waitOnDevice => exact ⟨_, hy, h.issue nofun hw⟩
  | waitOnHost => exact ⟨_, hy, h.issue nofun hw⟩
  | @flush t s hmem =>
      obtain ⟨w, hs, hhas⟩ := hst.streams s hmem
      exact ⟨_, hy.step (.flush hs hhas), h.flush rfl rfl rfl rfl rfl hw⟩
  | @dropStream _ s hmem =>
      obtain ⟨w, hs, hhas⟩ := hst.streams s hmem
      exact h.release hy hs hhas hw
  | @dropNotification _ _ n hn =>
      obtain ⟨u, k, hu, -, hhas, -⟩ := hst.notification (notification?_eq_some hn)
      exact h.release hy hu hhas hw
  | @touch _ state =>
      exact ⟨_, hy.step (.touch state),
        h.moved hw rfl rfl rfl rfl (fun _ _ => Or.inl) (fun _ _ => id) fun _ _ => id⟩
  | proceed hc hp => exact h.proceed hy hst (List.mem_of_getElem? hc) hp hw
  | work hwork => exact h.work hy hwork hw

/-- **Whatever happens in a workshop happens in a dispatch**, where threads keep no rules. -/
theorem Reached.dispatched (h : Reached exec x) : ∃ y, Dispatch.Reached exec y ∧ x.Dispatched y := by
  induction h with
  | empty state strict => exact ⟨_, .start state, .start state strict⟩
  | step hx hs ih =>
      obtain ⟨y, hy, hdispatched⟩ := ih
      exact hdispatched.step hy hx hs

/-- A flush that a thread saw return told it of the first job that panicked since the flush before. -/
theorem Dispatched.flushed (h : x.Dispatched y) (hy : Dispatch.Reached exec y) {s : Stream} {w : Worker}
    {a : Option StreamError} (hlog : .flushed s a ∈ x.log) (hw : s.worker? = some w) : ∃ before d after,
    Deed.behind w y.deeds = before ++ d :: after ∧ d.command = .flush ∧
      a.elim (.ok ()) .error = Stream.verdict (Deed.sinceFlush? before) := by
  obtain ⟨c, hc, rfl, hanswer⟩ := h.answered s a hlog
  obtain ⟨before, d, after, hdeeds, -, hd, hr⟩ := hy.returned (Dispatch.mem_callsOf.mpr ⟨hc, hw⟩) hanswer
  exact ⟨before, d, after, hdeeds, hd, hr⟩

end Workshop

end OpGraph
