import Mathlib.Data.Finset.Card
import Mathlib.Data.Finset.Range
import OpGraph.Proofs.Ledger

/-!
# `Proofs.Shares` — who keeps a queue open

Whoever holds a stream, or a notification of it, has a share in the queue of the stream, and so has a job that
keeps one. Every step takes shares and gives them up as it takes and gives up handles, so the queues of a
workshop agree with its ledger at any time (`Workshop.Ledgered.balanced`): a worker is sent home with the last
handle, and by then everything that was put in its queue is in front of that.
-/

namespace OpGraph

open Machine

variable {Job State : Type}

/-! ## What the host does to queues -/

section Host

variable {s : Stream} {m : Machine Job} {w : Worker}

theorem Stream.alters_share (hs : s.worker? = some w) (hw : m.Has w) :
    Alters m (s.share m) w fun k => { k with shares := k.shares + 1 } := by
  cases s with
  | gpu context => cases hs
  | sim timeline queue provider =>
      obtain rfl := Option.some.inj hs
      exact alters_modify hw fun _ => rfl

theorem Stream.alters_release (hs : s.worker? = some w) (hw : m.Has w) :
    Alters m (s.release m) w Timeline.released := by
  cases s with
  | gpu context => cases hs
  | sim timeline queue provider =>
      obtain rfl := Option.some.inj hs
      exact alters_modify hw fun _ => rfl

theorem Stream.alters_launch (hs : s.worker? = some w) (hw : m.Has w) (label : String) (job : Job) :
    Alters m (s.launch label job m).2 w fun k => { k with pending := k.pending ++ [.run label job] } := by
  cases s with
  | gpu context => cases hs
  | sim timeline queue provider =>
      obtain rfl := Option.some.inj hs
      exact alters_modify hw fun _ => rfl

theorem Stream.alters_notification (hs : s.worker? = some w) (hw : m.Has w) (consumers : Nat) :
    Alters m (s.notification consumers m).2 w fun k => { k with shares := k.shares + 1 } := by
  cases s with
  | gpu context => cases hs
  | sim timeline queue provider =>
      obtain rfl := Option.some.inj hs
      exact alters_modify hw fun _ => rfl

theorem Stream.alters_postFlush (hs : s.worker? = some w) (hw : m.Has w) :
    Alters m (s.postFlush m).2 w
      fun k => { k with pending := k.pending ++ [.flush], flushes := k.flushes + 1 } := by
  cases s with
  | gpu context => cases hs
  | sim timeline queue provider =>
      obtain rfl := Option.some.inj hs
      exact alters_modify hw fun _ => List.modify_modify_eq ..

theorem Notification.alters_record {n : Notification} {k : Nat} (hs : n.stream.worker? = some w)
    (hk : n.marker? = some k) (hw : m.Has w) :
    Alters m (n.record m) w fun q => { q with pending := q.pending ++ [.record k] } := by
  obtain ⟨s, marker, consumers, ready, waits⟩ := n
  cases s with
  | gpu context => cases hs
  | sim timeline queue provider =>
      obtain rfl := Option.some.inj hs
      obtain rfl : marker = some k := hk
      exact alters_modify hw fun _ => rfl

theorem Device.openStream_sim {timeline : Nat} {provider : ProviderId} {m' : Machine Job}
    (hlt : timeline < m.timelines.length)
    (ho : (Device.sim timeline provider).openStream provider m = .ok (s, m')) :
    ∃ u, s.worker? = some u ∧ ¬m.Has u ∧ ∀ w, m'.queue? w = if w = u then some {} else m.queue? w := by
  have hget : m.timelines[timeline]? = some (m.timeline timeline) := by simp [Machine.timeline, hlt]
  unfold openStream at ho
  split at ho
  · cases ho
  · obtain ⟨rfl, rfl⟩ := Prod.mk.inj (Except.ok.inj ho)
    refine ⟨_, rfl, ?_, (pushes_addQueue hget).2⟩
    simp [Has, queue?, hget]

end Host

namespace Workshop

variable {exec : Executor Job State} {x x' : Workshop Job State} {l : Ledger} {w : Worker}

/-! ## Handles -/

/-- Whether a notification of the worker's queue is there and was not given up. -/
def holds (x : Workshop Job State) (w : Worker) (i : Nat) : Bool :=
  (x.notification? i).map (·.stream.worker?) = some (some w)

/-- The notifications that have a share in the worker's queue. -/
def held (x : Workshop Job State) (w : Worker) : Finset Nat :=
  (Finset.range x.notifications.length).filter fun i => x.holds w i

/-- Number of streams and notifications that have a share in the worker's queue. -/
def handles (x : Workshop Job State) (w : Worker) : Nat :=
  x.streams.countP (fun s => s.worker? = some w) + (x.held w).card

theorem handles_pos_of_stream {s : Stream} (hs : s ∈ x.streams) (hw : s.worker? = some w) :
    0 < x.handles w :=
  Nat.add_pos_left (List.countP_pos_iff.mpr ⟨s, hs, decide_eq_true hw⟩) _

theorem mem_held {i : Nat} : i ∈ x.held w ↔ ∃ n, x.notification? i = some n ∧ n.stream.worker? = some w := by
  unfold held holds
  rw [Finset.mem_filter, Finset.mem_range, decide_eq_true_eq, Option.map_eq_some_iff]
  refine and_iff_right_of_imp ?_
  rintro ⟨n, hn, -⟩
  exact (List.getElem?_eq_some_iff.mp (notification?_eq_some hn)).1

theorem handles_pos_of_notification {i : Nat} {n : Notification} (hn : x.notification? i = some n)
    (hw : n.stream.worker? = some w) : 0 < x.handles w :=
  Nat.add_pos_right _ (Finset.card_pos.mpr ⟨i, mem_held.mpr ⟨n, hn, hw⟩⟩)

/-- A notification in the place of another of the same stream. -/
theorem handles_put {i : Nat} {n : Notification} (hn : x.notifications[i]? = some n) (n' : Notification)
    (hstream : n'.stream = n.stream) (w : Worker) : (x.put i n').handles w = x.handles w := by
  have hholds : (x.put i n').holds w = x.holds w := by
    funext j
    have hsame := map_getElem?_set (f := (·.stream.worker?)) hn (congrArg Stream.worker? hstream) j
    unfold holds notification? put
    split
    · rfl
    · rw [hsame]
  unfold handles held
  rw [hholds]
  simp [put]

/-- A stream more. -/
theorem handles_opened {m : Machine (Ticketed Job)} (s : Stream) (w : Worker) :
    ({ x with machine := m, streams := x.streams ++ [s] } : Workshop Job State).handles w =
      x.handles w + if s.worker? = some w then 1 else 0 := by
  show (x.streams ++ [s]).countP _ + (x.held w).card = _ + (x.held w).card + _
  rw [List.countP_append, List.countP_singleton]
  simp only [decide_eq_true_eq]
  omega

/-- A stream less. -/
theorem handles_dropStream {m : Machine (Ticketed Job)} {s : Stream} (hs : s ∈ x.streams) (w : Worker) :
    ({ x with machine := m, streams := x.streams.erase s } : Workshop Job State).handles w +
      (if s.worker? = some w then 1 else 0) = x.handles w := by
  show (x.streams.erase s).countP _ + (x.held w).card + _ = x.streams.countP _ + (x.held w).card
  rw [(List.perm_cons_erase hs).countP_eq, List.countP_cons]
  simp only [decide_eq_true_eq]
  omega

/-- A notification more. -/
theorem handles_notify {m : Machine (Ticketed Job)} {n : Notification}
    (hdropped : x.notifications.length ∉ x.dropped) (w : Worker) :
    ({ x with machine := m, notifications := x.notifications ++ [n] } : Workshop Job State).handles w =
      x.handles w + if n.stream.worker? = some w then 1 else 0 := by
  let x' : Workshop Job State := { x with machine := m, notifications := x.notifications ++ [n] }
  have hold : ∀ i < x.notifications.length, x'.holds w i = x.holds w i := by
    intro i hi
    unfold holds notification?
    simp only [x', List.getElem?_append_left hi]
  have hnew : x'.holds w x.notifications.length = decide (n.stream.worker? = some w) := by
    unfold holds notification?
    simp [x', hdropped]
  have hheld : (x'.held w).card = (x.held w).card + if n.stream.worker? = some w then 1 else 0 := by
    have hcongr : (Finset.range x.notifications.length).filter (fun i => x'.holds w i) = x.held w :=
      Finset.filter_congr fun i hi => by rw [hold i (Finset.mem_range.mp hi)]
    have hlen : x'.notifications.length = x.notifications.length + 1 := List.length_append
    rw [held, hlen, Finset.range_add_one, Finset.filter_insert, hcongr, hnew]
    simp only [decide_eq_true_eq]
    split
    · exact Finset.card_insert_of_notMem fun hmem =>
        Finset.notMem_range_self (Finset.mem_of_mem_filter _ hmem)
    · rfl
  show x.streams.countP _ + (x'.held w).card = _ + (x.held w).card + _
  omega

/-- A notification less. -/
theorem handles_dropNotification {m : Machine (Ticketed Job)} {i : Nat} {n : Notification}
    (hn : x.notification? i = some n) (w : Worker) :
    ({ x with machine := m, dropped := i :: x.dropped } : Workshop Job State).handles w +
      (if n.stream.worker? = some w then 1 else 0) = x.handles w := by
  let x' : Workshop Job State := { x with machine := m, dropped := i :: x.dropped }
  have hheld : x'.held w = (x.held w).erase i := by
    ext j
    rw [Finset.mem_erase, mem_held, mem_held]
    unfold notification?
    by_cases hj : j = i <;> simp [x', hj]
  show x.streams.countP _ + (x'.held w).card + _ = _ + (x.held w).card
  rw [hheld]
  split
  next hw =>
    have hmem : i ∈ x.held w := mem_held.mpr ⟨n, hn, hw⟩
    have := Finset.card_erase_add_one hmem
    omega
  next hw =>
    have hnot : i ∉ x.held w := by
      rintro hmem
      obtain ⟨n', hn', hw'⟩ := mem_held.mp hmem
      obtain rfl := Option.some.inj (hn.symm.trans hn')
      exact hw hw'
    rw [Finset.erase_eq_of_notMem hnot]
    omega

/-! ## Who is there -/

/-- What was given up had been made, and a stream that is to wait was not given up. -/
structure Orderly (x : Workshop Job State) : Prop where
  dropped : ∀ i ∈ x.dropped, i < x.notifications.length
  waiting : ∀ c i, some (.onDevice c i) ∈ x.threads → c ∈ x.streams

theorem Orderly.kept (h : x.Orderly) (hdropped : x'.dropped = x.dropped)
    (hlen : x.notifications.length ≤ x'.notifications.length) (hstreams : ∀ s ∈ x.streams, s ∈ x'.streams)
    (hthreads : ∀ c i, some (.onDevice c i) ∈ x'.threads →
      some (.onDevice c i) ∈ x.threads ∨ c ∈ x'.streams) : x'.Orderly where
  dropped i hi := Nat.lt_of_lt_of_le (h.dropped i (hdropped ▸ hi)) hlen
  waiting c i hc := (hthreads c i hc).elim (fun hold => hstreams c (h.waiting c i hold)) id

theorem Orderly.issue (h : x.Orderly) {t i : Nat} {n : Notification} {f : WaitFunction}
    {consumer : Option Stream} {c : Call} (hc : ∀ s j, c = .onDevice s j → s ∈ x.streams) :
    (x.issue t i n f consumer c).Orderly := by
  obtain ⟨k, threads, log, heq, hissued⟩ := x.issue_eq t i n f consumer c
  rw [heq]
  refine h.kept rfl (by simp [put]) (fun _ => id) fun s j hs => ?_
  rcases hissued with ⟨-, rfl, -⟩ | ⟨rfl, -⟩
  · exact (mem_set_threads hs).imp id fun hsame => hc s j hsame.symm
  · exact Or.inl hs

theorem Orderly.proceed (h : x.Orderly) {t : Nat} {c : Call} (hp : x.proceed t c = some x') : x'.Orderly := by
  cases c with
  | activating i =>
      obtain ⟨n, hn, rfl⟩ := Option.map_eq_some_iff.mp hp
      exact h.kept rfl (by simp [put, done]) (fun _ => id) fun s j hs => Or.inl (mem_set_none hs)
  | onDevice consumer i =>
      obtain ⟨n, hn, hp⟩ := Option.bind_eq_some_iff.mp hp
      obtain ⟨m, hm, rfl⟩ := Option.map_eq_some_iff.mp hp
      exact h.kept rfl (Nat.le_refl _) (fun _ => id) fun s j hs => Or.inl (mem_set_none hs)
  | onHost i =>
      obtain ⟨n, hn, hp⟩ := Option.bind_eq_some_iff.mp hp
      obtain ⟨m, hm, rfl⟩ := Option.map_eq_some_iff.mp hp
      exact h.kept rfl (Nat.le_refl _) (fun _ => id) fun s j hs => Or.inl (mem_set_none hs)
  | flushing s number =>
      obtain ⟨reply, -, rfl⟩ := Option.map_eq_some_iff.mp hp
      cases reply <;>
        exact h.kept rfl (Nat.le_refl _) (fun _ => id) fun s j hs => Or.inl (mem_set_none hs)

theorem Orderly.step (h : x.Orderly) {a : Move Job State} (hs : x.step exec a = some x') : x'.Orderly := by
  cases stepped_of_step hs with
  | device => exact ⟨h.dropped, h.waiting⟩
  | thread => exact ⟨h.dropped, fun c i hc => h.waiting c i (by simpa using hc)⟩
  | stream => exact ⟨h.dropped, fun c i hc => List.mem_append_left _ (h.waiting c i hc)⟩
  | launch => exact ⟨h.dropped, h.waiting⟩
  | notify => exact h.kept rfl (by simp) (fun _ => id) fun c i => Or.inl
  | activate => exact ⟨h.dropped, fun c i hc => h.waiting c i ((mem_set_threads hc).resolve_right nofun)⟩
  | waitOnDevice hmem =>
      refine h.issue fun s j heq => ?_
      injection heq with hstream
      exact hstream ▸ hmem
  | waitOnHost => exact h.issue nofun
  | flush => exact ⟨h.dropped, fun c i hc => h.waiting c i ((mem_set_threads hc).resolve_right nofun)⟩
  | dropStream hmem hfree =>
      refine ⟨h.dropped, fun c i hc => (List.mem_erase_of_ne ?_).mpr (h.waiting c i hc)⟩
      -- A thread that is to put a wait in the queue of the stream keeps it.
      rintro rfl
      have hcall := List.all_eq_true.mp hfree _ hc
      simp [Call.usesStream] at hcall
  | dropNotification hn =>
      refine ⟨fun j hj => ?_, h.waiting⟩
      rcases List.mem_cons.mp hj with rfl | hold
      · exact (List.getElem?_eq_some_iff.mp (notification?_eq_some hn)).1
      · exact h.dropped j hold
  | touch => exact ⟨h.dropped, h.waiting⟩
  | proceed _ hp => exact h.proceed hp
  | work hw =>
      obtain ⟨_, _, _, -, -, rfl⟩ := work_eq_some hw
      exact ⟨h.dropped, h.waiting⟩

/-! ## All queues -/

/-- Every queue agrees with the ledger, and where there is none nothing was put or taken. -/
structure Balanced (exec : Executor Job State) (x : Workshop Job State) (l : Ledger) : Prop where
  queues : ∀ w, x.machine.Has w → (x.machine.queue w).Balanced exec (x.handles w) (Slip.behind w l.put)
    (Slip.behind w l.taken)
  unused : ∀ w, ¬x.machine.Has w → Slip.behind w l.put = [] ∧ Slip.behind w l.taken = []

theorem Balanced.empty (state : State) (strict : Bool) :
    ({ state, strict } : Workshop Job State).Balanced exec {} where
  queues _ hw := nomatch hw
  unused _ _ := ⟨rfl, rfl⟩

/-- What was put in a queue was taken from it or waits in it, in this order. -/
theorem Balanced.commands (h : x.Balanced exec l) (w : Worker) : Slip.behind w l.put =
    Slip.behind w l.taken ++ (x.machine.queue w).pending.map Command.face := by
  by_cases hw : x.machine.Has w
  · exact (h.queues w hw).commands
  · obtain ⟨hput, htaken⟩ := h.unused w hw
    rw [hput, htaken, queue_of_not_has hw]
    rfl

/-- The worker has left exactly if it took the command that sends it home. -/
theorem Balanced.closed_iff (h : x.Balanced exec l) (w : Worker) :
    (x.machine.queue w).closed = true ↔ ⟨w, .shutdown⟩ ∈ l.taken := by
  rw [← Slip.mem_behind]
  by_cases hw : x.machine.Has w
  · exact (h.queues w hw).closed
  · rw [(h.unused w hw).2, queue_of_not_has hw]
    simp

/-- Nothing is put anywhere, nothing is taken, and no handle changes hands. -/
theorem Balanced.same (h : x.Balanced exec l) (hqueues : ∀ w, x'.machine.queue? w = x.machine.queue? w)
    (hhandles : ∀ w, x'.handles w = x.handles w) : x'.Balanced exec ⟨l.put ++ [], l.taken ++ []⟩ := by
  rw [List.append_nil, List.append_nil]
  refine ⟨fun w hw => ?_, fun w hw => h.unused w ?_⟩
  · rw [Has, hqueues] at hw
    rw [queue, hqueues, hhandles]
    exact h.queues w hw
  · rw [Has, hqueues] at hw
    exact hw

/-- One queue changes, with what is put in it and taken from it. -/
theorem Balanced.altered (h : x.Balanced exec l) {u : Worker}
    {g : Queue (Ticketed Job) → Queue (Ticketed Job)} {cs ds : List (Command Nat)} (hu : x.machine.Has u)
    (hg : Alters x.machine x'.machine u g) (hhandles : ∀ w, w ≠ u → x'.handles w = x.handles w)
    (hown : ∀ put taken, (x.machine.queue u).Balanced exec (x.handles u) put taken →
      (g (x.machine.queue u)).Balanced exec (x'.handles u) (put ++ cs) (taken ++ ds)) :
    x'.Balanced exec ⟨l.put ++ cs.map (Slip.mk u), l.taken ++ ds.map (Slip.mk u)⟩ where
  queues w hw := by
    rw [hg.has] at hw
    have hold := h.queues w hw
    rw [Slip.behind_append, Slip.behind_append]
    by_cases hsame : w = u
    · subst hsame
      rw [Slip.behind_own, Slip.behind_own, hg.own]
      exact hown _ _ hold
    · rw [Slip.behind_other (Ne.symm hsame), Slip.behind_other (Ne.symm hsame), List.append_nil,
        List.append_nil, hg.others w hsame, hhandles w hsame]
      exact hold
  unused w hw := by
    rw [hg.has] at hw
    have hne : u ≠ w := fun heq => hw (heq ▸ hu)
    rw [Slip.behind_append, Slip.behind_append, Slip.behind_other hne, Slip.behind_other hne, List.append_nil,
      List.append_nil]
    exact h.unused w hw

/-- Where there is no queue nobody has a share in it. -/
theorem Stocked.handles_eq_zero (h : x.Stocked) (hw : ¬x.machine.Has w) : x.handles w = 0 := by
  have hstreams : x.streams.countP (fun s => s.worker? = some w) = 0 := by
    refine List.countP_eq_zero.mpr fun s hs hworker => hw ?_
    exact (h.streams s hs).on w (of_decide_eq_true hworker)
  have hheld : x.held w = ∅ := by
    refine Finset.eq_empty_of_forall_notMem fun i hi => hw ?_
    obtain ⟨n, hn, hworker⟩ := mem_held.mp hi
    obtain ⟨u, k, hu, -, hhas, -⟩ := h.notification (notification?_eq_some hn)
    obtain rfl := Option.some.inj (hu.symm.trans hworker)
    exact hhas
  unfold handles
  rw [hstreams, hheld, Finset.card_empty]

/-- A stream on a queue of its own. -/
theorem Balanced.opened (h : x.Balanced exec l) (hst : x.Stocked) {m : Machine (Ticketed Job)} {s : Stream}
    {u : Worker} (hs : s.worker? = some u) (hu : ¬x.machine.Has u)
    (hqueues : ∀ w, m.queue? w = if w = u then some {} else x.machine.queue? w) :
    ({ x with machine := m, streams := x.streams ++ [s] } : Workshop Job State).Balanced exec
      ⟨l.put ++ [], l.taken ++ []⟩ := by
  rw [List.append_nil, List.append_nil]
  refine ⟨fun w hw => ?_, fun w hw => h.unused w ?_⟩
  · have hw : m.Has w := hw
    rw [handles_opened]
    show (m.queue w).Balanced exec _ _ _
    rw [Has, hqueues] at hw
    rw [queue, hqueues]
    by_cases hsame : w = u
    · subst hsame
      obtain ⟨hput, htaken⟩ := h.unused w hu
      rw [if_pos rfl, if_pos hs, hst.handles_eq_zero hu, hput, htaken]
      exact Queue.Balanced.fresh
    · have hother : s.worker? ≠ some w := fun heq => hsame (Option.some.inj (heq.symm.trans hs))
      rw [if_neg hsame] at hw ⊢
      rw [if_neg hother]
      exact h.queues w hw
  · have hw : ¬m.Has w := hw
    rw [Has, hqueues] at hw
    by_cases hsame : w = u
    · exact hsame ▸ hu
    · rw [if_neg hsame] at hw
      exact hw

/-- One queue changes, with what is put in it; nothing is taken. -/
theorem Balanced.entered (h : x.Balanced exec l) {u : Worker}
    {g : Queue (Ticketed Job) → Queue (Ticketed Job)} {cs : List (Command Nat)} (hu : x.machine.Has u)
    (hg : Alters x.machine x'.machine u g) (hhandles : ∀ w, w ≠ u → x'.handles w = x.handles w)
    (hown : ∀ put taken, (x.machine.queue u).Balanced exec (x.handles u) put taken →
      (g (x.machine.queue u)).Balanced exec (x'.handles u) (put ++ cs) taken) :
    x'.Balanced exec ⟨l.put ++ cs.map (Slip.mk u), l.taken ++ []⟩ := by
  show x'.Balanced exec ⟨_, l.taken ++ ([] : List (Command Nat)).map (Slip.mk u)⟩
  refine h.altered hu hg hhandles fun put taken hold => ?_
  rw [List.append_nil]
  exact hown put taken hold

/-! ## Steps -/

theorem Balanced.launch (h : x.Balanced exec l) (hst : x.Stocked) {s : Stream} (hs : s ∈ x.streams)
    (label : String) {job : Job} {shares : Bool} (hsound : Launches exec job → shares = true) :
    (x.launch s label job shares).Balanced exec
      ⟨l.put ++ s.slips [.run label x.jobs.length], l.taken ++ []⟩ := by
  obtain ⟨w, hw, hhas⟩ := hst.streams s hs
  rw [Stream.slips_eq hw]
  have hpos := handles_pos_of_stream hs hw
  have hjob : ∀ label' (job' : Ticketed Job),
      Command.run label ⟨x.jobs.length, job, shares⟩ = .run label' job' →
        Launches exec job'.job → job'.shares = true := by
    rintro _ _ heq
    injection heq with _ hsame
    exact hsame ▸ hsound
  cases shares with
  | false =>
      refine h.entered hhas (Stream.alters_launch hw hhas _ _) (fun _ _ => rfl) fun put taken hown => ?_
      exact hown.pushed hpos (.run label ⟨x.jobs.length, job, false⟩) nofun hjob rfl rfl rfl
  | true =>
      have hshare := Stream.alters_share hw hhas
      refine h.entered hhas (hshare.trans (Stream.alters_launch hw ((hshare.has w).mpr hhas) _ _))
        (fun _ _ => rfl) fun put taken hown => ?_
      exact hown.pushed hpos (.run label ⟨x.jobs.length, job, true⟩) nofun hjob rfl rfl rfl

theorem Balanced.notify (h : x.Balanced exec l) (ho : x.Orderly) (hst : x.Stocked) {s : Stream}
    (hs : s ∈ x.streams) (consumers : Nat) : ({ x with
      machine := (s.notification consumers x.machine).2
      notifications := x.notifications ++ [(s.notification consumers x.machine).1] } :
        Workshop Job State).Balanced exec ⟨l.put ++ [], l.taken ++ []⟩ := by
  obtain ⟨w, hw, hhas⟩ := hst.streams s hs
  have hmade : (s.notification consumers x.machine).1.stream = s := by
    rw [(Stream.pushes_notification (hst.streams s hs).on consumers).2.1]
  have hdropped : x.notifications.length ∉ x.dropped := fun hmem => Nat.lt_irrefl _ (ho.dropped _ hmem)
  show Balanced exec _ ⟨l.put ++ ([] : List (Command Nat)).map (Slip.mk w), _⟩
  refine h.entered hhas (Stream.alters_notification hw hhas consumers) (fun u hu => ?_)
    fun put taken hown => ?_
  · have hother : s.worker? ≠ some u := fun heq => hu (Option.some.inj (heq.symm.trans hw))
    rw [handles_notify hdropped, hmade, if_neg hother, Nat.add_zero]
  · rw [handles_notify hdropped, hmade, if_pos hw, List.append_nil]
    exact hown.shared (handles_pos_of_stream hs hw)

theorem Balanced.activate (h : x.Balanced exec l) (hst : x.Stocked) {t i : Nat} {n : Notification}
    {log : List Happening} (hn : x.notification? i = some n) : ∃ u k, x.mark? i = some (u, k) ∧
      ({ x.busy t (.activating i) with machine := n.record x.machine, log } :
        Workshop Job State).Balanced exec ⟨l.put ++ [⟨u, .record k⟩], l.taken ++ []⟩ := by
  obtain ⟨u, k, hu, hk, hhas, hmark⟩ := hst.notification (notification?_eq_some hn)
  refine ⟨u, k, hmark, ?_⟩
  show Balanced exec _ ⟨l.put ++ [Command.record k].map (Slip.mk u), _⟩
  refine h.entered hhas (Notification.alters_record hu hk hhas) (fun _ _ => rfl) fun put taken hown => ?_
  exact hown.pushed (handles_pos_of_notification hn hu) (.record k) nofun (fun _ _ => nofun) rfl rfl rfl

/-- Somebody gives up a handle. -/
theorem Balanced.release (h : x.Balanced exec l) {s : Stream} {w : Worker} (hw : s.worker? = some w)
    (hhas : x.machine.Has w) (hmachine : x'.machine = s.release x.machine)
    (hhandles : ∀ u, x'.handles u + (if s.worker? = some u then 1 else 0) = x.handles u) :
    x'.Balanced exec ⟨l.put ++ x.farewell s, l.taken ++ []⟩ := by
  have hfarewell : x.farewell s = (x.machine.queue w).farewell.map (Slip.mk w) := by
    unfold farewell
    rw [hw]
  rw [hfarewell]
  refine h.entered hhas (hmachine ▸ Stream.alters_release hw hhas) (fun u hu => ?_) fun put taken hown => ?_
  · rw [← hhandles u, if_neg fun heq => hu (Option.some.inj (heq.symm.trans hw)), Nat.add_zero]
  · rw [← hhandles w, if_pos hw] at hown
    exact hown.released

theorem Balanced.flush (h : x.Balanced exec l) (hst : x.Stocked) {s : Stream} (hs : s ∈ x.streams)
    {threads : List (Option Call)} :
    ({ x with machine := (s.postFlush x.machine).2, threads } : Workshop Job State).Balanced exec
      ⟨l.put ++ s.slips [.flush], l.taken ++ []⟩ := by
  obtain ⟨w, hw, hhas⟩ := hst.streams s hs
  rw [Stream.slips_eq hw]
  refine h.entered hhas (Stream.alters_postFlush hw hhas) (fun _ _ => rfl) fun put taken hown => ?_
  exact hown.pushed (handles_pos_of_stream hs hw) .flush nofun (fun _ _ => nofun) rfl rfl rfl

/-- Going on with a call puts a wait in the queue of a stream, if it was about that. -/
theorem Balanced.proceed (h : x.Balanced exec l) (ho : x.Orderly) (hst : x.Stocked) {t : Nat} {c : Call}
    (hc : x.threads[t]? = some (some c)) (hp : x.proceed t c = some x') :
    x'.Balanced exec ⟨l.put ++ x.puts exec (.proceed t), l.taken ++ []⟩ := by
  have hmem := List.mem_of_getElem? hc
  cases c with
  | activating i =>
      obtain ⟨n, hn, rfl⟩ := Option.map_eq_some_iff.mp hp
      rw [puts_proceed hc nofun]
      exact h.same (fun _ => rfl) fun w => handles_put hn { n with ready := true } rfl w
  | onDevice consumer i =>
      obtain ⟨n, hn, hp⟩ := Option.bind_eq_some_iff.mp hp
      obtain ⟨m, hm, rfl⟩ := Option.map_eq_some_iff.mp hp
      obtain ⟨w, hw, hhas⟩ := hst.streams consumer (ho.waiting consumer i hmem)
      obtain ⟨u, k, hu, hk, -, hmark⟩ := hst.notification hn
      obtain ⟨-, rfl⟩ := complete_device hu hk hw hm
      rw [puts_onDevice hc hmark, Stream.slips_eq hw]
      refine h.entered hhas (alters_modify hhas fun _ => rfl) (fun _ _ => rfl) fun put taken hown => ?_
      exact hown.pushed (handles_pos_of_stream (ho.waiting consumer i hmem) hw) (.wait k) nofun
        (fun _ _ => nofun) rfl rfl rfl
  | onHost i =>
      obtain ⟨n, hn, hp⟩ := Option.bind_eq_some_iff.mp hp
      obtain ⟨m, hm, rfl⟩ := Option.map_eq_some_iff.mp hp
      obtain ⟨u, k, hu, hk, -, -⟩ := hst.notification hn
      obtain ⟨-, -, rfl⟩ := complete_host hu hk hm
      rw [puts_proceed hc nofun]
      refine h.same (fun w => ?_) fun w => rfl
      have hsame := queue?_modify x.machine u (f := (·.stamp none (.resume k))) (g := id)
        (fun t => (List.modify_id ..).symm) w
      exact hsame.trans (by simp)
  | flushing s number =>
      obtain ⟨reply, -, rfl⟩ := Option.map_eq_some_iff.mp hp
      rw [puts_proceed hc nofun]
      cases reply <;> exact h.same (fun _ => rfl) fun _ => rfl

/-- A worker is done with a command, or with a part of a job. -/
theorem Balanced.work (h : x.Balanced exec l) (hw : x.work exec w = some x') :
    x'.Balanced exec ⟨l.put ++ x.puts exec (.work w), l.taken ++ x.takes exec (.work w)⟩ := by
  obtain ⟨c, s', m', hfront, hstep, rfl⟩ := work_eq_some hw
  obtain ⟨c', g, hhas, hopen, hhead, hg, hcases⟩ := step_alters hstep
  obtain rfl : c = c' := Option.some.inj ((head?_of_front? hfront).symm.trans hhead)
  rcases hcases with ⟨label, job, e, rfl, hrun, rfl⟩ | ⟨hjob, hpending, hshares, hclosed⟩
  · obtain ⟨e₀, hexec, hrest, -, hlaunched, hreleases⟩ := ticketed_run_eq_some hrun
    have htakes : x.takes exec (.work w) =
        (if e₀.rest.isNone then [Command.run label job.ticket] else []).map (Slip.mk w) := by
      simp only [takes, hfront, hexec]
      split <;> rfl
    have hputs : x.puts exec (.work w) = (job.puts e₀ (x.machine.queue w)).map (Slip.mk w) := by
      simp only [puts, hfront, hexec]
    rw [htakes, hputs]
    exact h.altered hhas hg (fun _ _ => rfl) fun put taken hown =>
      hown.worked hhead hexec hrest hlaunched hreleases
  · have htakes : x.takes exec (.work w) = [c.face].map (Slip.mk w) := by
      simp only [takes, hfront]
      cases c with
      | run label job => exact absurd rfl (hjob label job)
      | _ => rfl
    have hputs : x.puts exec (.work w) = ([] : List (Command Nat)).map (Slip.mk w) := by
      simp only [puts, hfront]
      cases c with
      | run label job => exact absurd rfl (hjob label job)
      | _ => rfl
    have hkeeps : c.keeps = false := by
      cases c with
      | run label job => exact absurd rfl (hjob label job)
      | _ => rfl
    rw [htakes, hputs]
    refine h.altered hhas hg (fun _ _ => rfl) fun put taken hown => ?_
    obtain ⟨rest, hqueue⟩ := List.head?_eq_some_iff.mp hhead
    have hleft : (g (x.machine.queue w)).closed = true ↔
        (x.machine.queue w).closed = true ∨ c = .shutdown := by
      by_cases hshutdown : c = .shutdown
      · simp [hshutdown, (hclosed (x.machine.queue w)).1 hshutdown]
      · simp [hshutdown, (hclosed (x.machine.queue w)).2 hshutdown]
    have hpopped := hown.popped hqueue (by rw [hpending, hqueue]; rfl) (hshares _) hleft
    rw [hkeeps] at hpopped
    rw [List.append_nil]
    exact hpopped

/-- **Every step leaves the queues in agreement with the ledger.** -/
theorem Balanced.step (h : x.Balanced exec l) (ho : x.Orderly) (hst : x.Stocked) {a : Move Job State}
    (ha : a.Sound exec) (hs : x.step exec a = some x') :
    x'.Balanced exec ⟨l.put ++ x.puts exec a, l.taken ++ x.takes exec a⟩ := by
  cases stepped_of_step hs with
  | device => exact h.same (fun w => queue?_addTimeline _ w) fun _ => rfl
  | thread => exact h.same (fun _ => rfl) fun _ => rfl
  | stream hlt hopen =>
      obtain ⟨u, hu, hnot, hqueues⟩ := Device.openStream_sim hlt hopen
      exact h.opened hst hu hnot hqueues
  | launch hmem => exact h.launch hst hmem _ ha
  | notify hmem => exact h.notify ho hst hmem _
  | activate _ hn =>
      obtain ⟨u, k, hmark, hnext⟩ := h.activate hst hn
      rw [puts_activate hmark]
      exact hnext
  | @waitOnDevice _ _ _ n _ hn =>
      obtain ⟨k, threads, log, heq, -⟩ := x.issue_eq _ _ n deviceWait _ _
      rw [heq]
      exact h.same (fun _ => rfl) (handles_put (notification?_eq_some hn) { n with waits := k } rfl)
  | @waitOnHost _ _ n hn =>
      obtain ⟨k, threads, log, heq, -⟩ := x.issue_eq _ _ n hostWait _ _
      rw [heq]
      exact h.same (fun _ => rfl) (handles_put (notification?_eq_some hn) { n with waits := k } rfl)
  | flush hmem => exact h.flush hst hmem
  | dropStream hmem =>
      obtain ⟨w, hw, hhas⟩ := hst.streams _ hmem
      exact h.release hw hhas rfl fun u => handles_dropStream hmem u
  | dropNotification hn =>
      have hn' := notification?_eq_some hn
      obtain ⟨u, k, hu, -, hhas, -⟩ := hst.notification hn'
      rw [puts_dropNotification hn']
      exact h.release hu hhas rfl fun u => handles_dropNotification hn u
  | touch => exact h.same (fun _ => rfl) fun _ => rfl
  | proceed hc hp => exact h.proceed ho hst hc hp
  | work hw => exact h.work hw

theorem Ledgered.balanced (h : Ledgered exec x l) : x.Orderly ∧ x.Balanced exec l := by
  induction h with
  | empty state strict => exact ⟨⟨nofun, nofun⟩, .empty state strict⟩
  | step hl ha hs ih => exact ⟨ih.1.step hs, ih.2.step ih.1 hl.reached.stocked ha hs⟩

end Workshop

end OpGraph
