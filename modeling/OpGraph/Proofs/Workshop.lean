import OpGraph.Proofs.Opening
import OpGraph.Proofs.Stamps
import OpGraph.Stream.Workshop

/-!
# `Proofs.Workshop` — everything one step in a workshop can do

Host threads put commands behind queues, make things, and learn how their calls ended; workers take
commands from the front. `Workshop.Act` lists what the threads do, `Workshop.Went` adds the workers. Both
need that streams and notifications are there, which every step keeps (`Workshop.Stocked`).
-/

namespace OpGraph

open Machine

variable {Job State : Type}

namespace Workshop

variable {exec : Executor Job State} {x x' : Workshop Job State}

/-! ## What there is -/

/-- The worker whose queue tells of a notification, and the marker that does. -/
def mark? (x : Workshop Job State) (i : Nat) : Option (Worker × Nat) :=
  (x.notifications[i]?).bind fun n => n.stream.worker?.bind fun u => n.marker?.map fun k => (u, k)

/-- The worker that a job was launched for, and the label of the job. -/
def home? (x : Workshop Job State) (j : Nat) : Option (Worker × String) :=
  (x.jobs[j]?).bind fun job => job.1.worker?.map fun w => (w, job.2)

theorem mark?_eq_some {i k : Nat} {u : Worker} : x.mark? i = some (u, k) ↔
    ∃ n, x.notifications[i]? = some n ∧ n.stream.worker? = some u ∧ n.marker? = some k := by
  unfold mark?
  simp only [Option.bind_eq_some_iff, Option.map_eq_some_iff, Prod.mk.injEq]
  constructor
  · rintro ⟨n, hn, u', hu, k', hk, rfl, rfl⟩
    exact ⟨n, hn, hu, hk⟩
  · rintro ⟨n, hn, hu, hk⟩
    exact ⟨n, hn, u, hu, k, hk, rfl, rfl⟩

theorem home?_eq_some {j : Nat} {w : Worker} {label : String} : x.home? j = some (w, label) ↔
    ∃ s, x.jobs[j]? = some (s, label) ∧ s.worker? = some w := by
  unfold home?
  simp only [Option.bind_eq_some_iff, Option.map_eq_some_iff, Prod.mk.injEq, Prod.exists]
  constructor
  · rintro ⟨s, label', hj, w', hw, rfl, rfl⟩
    exact ⟨s, hj, hw⟩
  · rintro ⟨s, hj, hw⟩
    exact ⟨s, label, hj, w, hw, rfl, rfl⟩

/-- A stream on a queue that is there. -/
def Opened (m : Machine (Ticketed Job)) (s : Stream) : Prop := ∃ w, s.worker? = some w ∧ m.Has w

theorem Opened.on {m : Machine (Ticketed Job)} {s : Stream} (h : Opened m s) : s.On m := by
  obtain ⟨w, hw, hhas⟩ := h
  exact .of_has hw hhas

/-- A notification on a queue that is there, with a marker that was made. -/
def Made (m : Machine (Ticketed Job)) (n : Notification) : Prop :=
  ∃ u k, n.stream.worker? = some u ∧ n.marker? = some k ∧ m.Has u ∧ k < m.markerCount u.timeline

/-- A call that may be under way. -/
def Admitted (x : Workshop Job State) : Call → Prop
  | .activating i => .recorded i ∈ x.log
  | .onDevice c i => Opened x.machine c ∧
      ∃ n, x.notifications[i]? = some n ∧ deviceWait.admits (some c) n.stream = true
  | _ => True

/-- Streams and notifications are there. -/
structure Stocked (x : Workshop Job State) : Prop where
  streams : ∀ s ∈ x.streams, Opened x.machine s
  notifications : ∀ n ∈ x.notifications, Made x.machine n
  threads : ∀ c, some c ∈ x.threads → x.Admitted c

/-! ## What threads do -/

/-- A refused wait, or the answer to a flush. -/
def IsAnswer : Happening → Prop
  | .refused .. => True
  | .flushed .. => True
  | _ => False

/-- Where a notification tells, which never changes. -/
def place (n : Notification) : Stream × Option Nat := (n.stream, n.marker?)

/-- Notifications that differ by their counts, if at all. -/
structure Alike (ns ns' : List Notification) : Prop where
  places : ∀ i : Nat, (ns'[i]?).map place = (ns[i]?).map place
  ready : ∀ i : Nat, (ns'[i]?).map (·.ready) = (ns[i]?).map (·.ready)

/-- A step in which nothing is launched, made, activated, or known to be over. -/
structure Calm (x x' : Workshop Job State) : Prop where
  pushes : ∃ more, Pushes x.machine x'.machine more ∧ ∀ w, ∀ c ∈ more w, c = .flush ∨ c = .shutdown
  silent : Silent x.machine x'.machine
  log : x'.log = x.log ∨ ∃ a, x'.log = x.log ++ [a] ∧ IsAnswer a
  jobs : x'.jobs = x.jobs
  notifications : Alike x.notifications x'.notifications
  streams : ∀ s ∈ x'.streams, s ∈ x.streams ∨ Opened x'.machine s
  threads : ∀ c, some c ∈ x'.threads → some c ∈ x.threads ∨ x'.Admitted c

/-- What a step of a thread did that is not calm. -/
inductive Act (x : Workshop Job State) : Workshop Job State → Prop
  | launched {s : Stream} {w : Worker} {label : String} {job : Ticketed Job}
      {m : Machine (Ticketed Job)} : s.worker? = some w → job.ticket = x.jobs.length →
      Pushes x.machine m (only w (.run label job)) → Silent x.machine m →
      Act x { x with
        machine := m, jobs := x.jobs ++ [(s, label)], log := x.log ++ [.launched x.jobs.length] }
  | notified {n : Notification} {u : Worker} {m : Machine (Ticketed Job)} :
      n.stream.worker? = some u → n.marker? = some (x.machine.markerCount u.timeline) →
      n.ready = false → x.machine.Has u → Pushes x.machine m nothing →
      m.markerCount u.timeline = x.machine.markerCount u.timeline + 1 → Silent x.machine m →
      Act x { x with machine := m, notifications := x.notifications ++ [n] }
  | recorded {t i k : Nat} {u : Worker} {m : Machine (Ticketed Job)} : x.mark? i = some (u, k) →
      .recorded i ∉ x.log → Pushes x.machine m (only u (.record k)) → Silent x.machine m →
      Act x { x.busy t (.activating i) with machine := m, log := x.log ++ [.recorded i] }
  | activated {t i : Nat} {n : Notification} : x.notifications[i]? = some n → .recorded i ∈ x.log →
      Act x ((x.put i { n with ready := true }).done t (.activated i))
  | waited {t i k : Nat} {n : Notification} {c : Stream} {u w : Worker} {m : Machine (Ticketed Job)} :
      x.notifications[i]? = some n → n.ready = true → x.mark? i = some (u, k) →
      c.worker? = some w → u.timeline = w.timeline → Pushes x.machine m (only w (.wait k)) →
      Silent x.machine m → Act x ({ x with machine := m }.done t (.waited i c))
  | resumed {t i k : Nat} {n : Notification} {u : Worker} {m : Machine (Ticketed Job)} :
      x.notifications[i]? = some n → n.ready = true → x.mark? i = some (u, k) →
      (x.machine.reachedAt u.timeline k).isSome → Pushes x.machine m nothing →
      (∀ t', m.events t' = x.machine.events t' ++
        if t' = u.timeline then [⟨x.machine.nextTick t', none, .resume k⟩] else []) →
      Act x ({ x with machine := m }.done t (.resumed i (x.machine.nextTick u.timeline)))

/-! ## What workers do -/

/-- How far a command got, by what is left of it in front of the queue, what became known, and what was
    stamped. -/
inductive Progress (m : Machine (Ticketed Job)) (w : Worker) : Command (Ticketed Job) →
    List (Command (Ticketed Job)) → List Happening → List Occurrence → Prop
  /-- A job is not over yet. -/
  | on {label : String} {job job' : Ticketed Job} : job'.ticket = job.ticket →
      Progress m w (.run label job) [.run label job'] [] []
  | ended {label : String} {job : Ticketed Job} :
      Progress m w (.run label job) [] [.ended job.ticket (some (m.nextTick w.timeline))] [.job label]
  | panicked {label : String} {job : Ticketed Job} :
      Progress m w (.run label job) [] [.ended job.ticket none] []
  | fixed {job : FixedJob} :
      Progress m w (.fixed job) [] [] (if job.panics then [] else [.job job.label])
  | record {k : Nat} : Progress m w (.record k) [] [] [.marker k]
  | wait {k : Nat} : (m.reachedAt w.timeline k).isSome → Progress m w (.wait k) [] [] []
  | flush : Progress m w .flush [] [] []
  | shutdown : Progress m w .shutdown [] [] []

/-- What a step of a worker did. -/
structure Worked (x x' : Workshop Job State) (w : Worker) (c : Command (Ticketed Job))
    (front more : List (Command (Ticketed Job))) (news : List Happening) (stamps : List Occurrence) :
    Prop where
  head : (x.machine.queue w).pending.head? = some c
  popped : Popped x.machine x'.machine w front more
  /-- What jobs and the worker put behind the others. -/
  more : ∀ c ∈ more, c = .shutdown ∨ ∃ job, c = .fixed job
  progress : Progress x.machine w c front news stamps
  log : x'.log = x.log ++ news
  jobs : x'.jobs = x.jobs
  notifications : x'.notifications = x.notifications
  streams : x'.streams = x.streams
  threads : x'.threads = x.threads
  events : ∀ t, x'.machine.events t = x.machine.events t ++
    if t = w.timeline then stamps.map fun what => ⟨x.machine.nextTick t, some w.queue, what⟩ else []
  reached : ∀ t k, x'.machine.reachedAt t k = x.machine.reachedAt t k ∨
    t = w.timeline ∧ c = .record k ∧ x'.machine.reachedAt t k = some (x.machine.nextTick t)
  /-- A marker that is recorded is reached, if it was made. -/
  recorded : ∀ k, c = .record k → k < x.machine.markerCount w.timeline →
    (x'.machine.reachedAt w.timeline k).isSome

/-- What a step did. -/
inductive Went (x x' : Workshop Job State) : Prop
  | calm : Calm x x' → Went x x'
  | acted : Act x x' → Went x x'
  | worked {w : Worker} {c : Command (Ticketed Job)} {front more : List (Command (Ticketed Job))}
      {news : List Happening} {stamps : List Occurrence} :
      Worked x x' w c front more news stamps → Went x x'

/-! ## Waits -/

theorem Alike.refl (ns : List Notification) : Alike ns ns := ⟨fun _ => rfl, fun _ => rfl⟩

/-- What a notification put in the place of another has in common with it. -/
theorem map_getElem?_set {β : Type} {f : Notification → β} {ns : List Notification} {i : Nat}
    {n n' : Notification} (hn : ns[i]? = some n) (hf : f n' = f n) (j : Nat) :
    ((ns.set i n')[j]?).map f = (ns[j]?).map f := by
  rw [List.getElem?_set]
  split
  next heq =>
    subst heq
    rw [hn, if_pos (List.getElem?_eq_some_iff.mp hn).1]
    exact congrArg some hf
  · rfl

/-- Only the waits of a notification are counted. -/
theorem alike_set {ns : List Notification} {i k : Nat} {n : Notification} (hn : ns[i]? = some n) :
    Alike ns (ns.set i { n with waits := k }) :=
  ⟨map_getElem?_set hn rfl, map_getElem?_set hn rfl⟩

/-- A call that is under way stays so. -/
theorem mem_set_threads {threads : List (Option Call)} {t : Nat} {c c' : Call}
    (h : some c ∈ threads.set t (some c')) : some c ∈ threads ∨ c = c' := by
  rcases List.mem_or_eq_of_mem_set h with hold | heq
  · exact Or.inl hold
  · exact Or.inr (Option.some.inj heq)

theorem mem_set_none {threads : List (Option Call)} {t : Nat} {c : Call}
    (h : some c ∈ threads.set t none) : some c ∈ threads := by
  rcases List.mem_or_eq_of_mem_set h with hold | heq
  · exact hold
  · cases heq

/-- Issuing a wait counts it, and the thread is in the wait or was refused. -/
theorem issue_eq (x : Workshop Job State) (t i : Nat) (n : Notification) (f : WaitFunction)
    (consumer : Option Stream) (c : Call) : ∃ k threads log,
      x.issue t i n f consumer c = { x.put i { n with waits := k } with threads, log } ∧
      (f.admits consumer n.stream = true ∧ threads = x.threads.set t (some c) ∧ log = x.log ∨
        threads = x.threads ∧ ∃ e, log = x.log ++ [.refused i e]) := by
  obtain ⟨k, -, hcounted, -⟩ := WaitFunction.check_snd f consumer n
  unfold issue
  cases hcheck : f.check consumer n with
  | mk outcome n' =>
      rw [hcheck] at hcounted
      obtain rfl : n' = { n with waits := n.waits + k } := hcounted
      refine ⟨n.waits + k, ?_⟩
      cases outcome with
      | ok u =>
          exact ⟨_, _, rfl, Or.inl ⟨(WaitFunction.check_eq_ok.mp ⟨u, by rw [hcheck]⟩).1, rfl, rfl⟩⟩
      | error e =>
          dsimp only
          split
          next hlenient =>
            refine ⟨_, _, rfl, Or.inl ⟨?_, rfl, rfl⟩⟩
            exact WaitFunction.admits_of_overWaited (by rw [hcheck]; exact congrArg _ hlenient.1)
          · exact ⟨_, _, rfl, Or.inr ⟨rfl, e, rfl⟩⟩

/-- Issuing a wait is calm. -/
theorem calm_issue {t i : Nat} {n : Notification} {f : WaitFunction} {consumer : Option Stream} {c : Call}
    (hn : x.notifications[i]? = some n)
    (hc : f.admits consumer n.stream = true → ∀ k, (x.put i { n with waits := k }).Admitted c) :
    Calm x (x.issue t i n f consumer c) := by
  obtain ⟨k, threads, log, heq, hissued⟩ := x.issue_eq t i n f consumer c
  rw [heq]
  exact {
    pushes := ⟨nothing, Pushes.refl _, by simp [nothing]⟩
    silent := .refl _
    log := hissued.imp (fun hwaits => hwaits.2.2) fun ⟨_, e, hlog⟩ => ⟨.refused i e, hlog, trivial⟩
    jobs := rfl
    notifications := alike_set hn
    streams := fun s hs => Or.inl hs
    threads := fun c' hc' => by
      rcases hissued with ⟨hadmits, rfl, rfl⟩ | ⟨rfl, -⟩
      · refine (mem_set_threads hc').imp id fun hsame => ?_
        subst hsame
        exact hc hadmits k
      · exact Or.inl hc' }

/-- A wait of a stream that returns has put the marker behind the consumer's queue. -/
theorem complete_device {m m' : Machine (Ticketed Job)} {n : Notification} {c : Stream} {u w : Worker}
    {k : Nat} (hu : n.stream.worker? = some u) (hk : n.marker? = some k) (hw : c.worker? = some w)
    (h : deviceWait.complete (some c) n m = some m') :
    n.ready = true ∧ m' = m.modify w.timeline (·.push w.queue (.wait k)) := by
  obtain ⟨stream, marker, consumers, ready, waits⟩ := n
  cases stream with
  | gpu context => cases hu
  | sim timeline queue provider =>
  cases c with
  | gpu context => cases hw
  | sim timeline' queue' provider' =>
  obtain rfl : marker = some k := hk
  obtain rfl := Option.some.inj hw
  cases ready with
  | false => cases h
  | true => exact ⟨rfl, (Option.some.inj h).symm⟩

/-- A wait of the host that returns found the marker reached, and says so in the trace. -/
theorem complete_host {m m' : Machine (Ticketed Job)} {n : Notification} {u : Worker} {k : Nat}
    (hu : n.stream.worker? = some u) (hk : n.marker? = some k)
    (h : hostWait.complete none n m = some m') :
    n.ready = true ∧ (m.reachedAt u.timeline k).isSome ∧
      m' = m.modify u.timeline (·.stamp none (.resume k)) := by
  obtain ⟨stream, marker, consumers, ready, waits⟩ := n
  cases stream with
  | gpu context => cases hu
  | sim timeline queue provider =>
  obtain rfl : marker = some k := hk
  obtain rfl := Option.some.inj hu
  cases ready with
  | false => cases h
  | true =>
      have hcomplete : (if ((m.timeline timeline).reachedAt k).isSome then
          some (m.modify timeline (·.stamp none (.resume k))) else none) = some m' := h
      split at hcomplete
      next hreached => exact ⟨rfl, hreached, (Option.some.inj hcomplete).symm⟩
      · cases hcomplete

theorem nextTick_eq {m : Machine (Ticketed Job)} {n : Notification} {u : Worker}
    (hu : n.stream.worker? = some u) : n.nextTick m = m.nextTick u.timeline := by
  unfold Notification.nextTick
  cases hs : n.stream with
  | gpu context => rw [hs] at hu; cases hu
  | sim timeline queue provider =>
      rw [hs] at hu
      obtain rfl := Option.some.inj hu
      rfl

/-- Peers share a timeline. -/
theorem timeline_of_admits {c s : Stream} {u w : Worker} (hu : s.worker? = some u) (hw : c.worker? = some w)
    (h : deviceWait.admits (some c) s = true) : u.timeline = w.timeline := by
  cases s with
  | gpu context => cases hu
  | sim timeline queue provider =>
  cases c with
  | gpu context => cases hw
  | sim timeline' queue' provider' =>
      obtain rfl := Option.some.inj hu
      obtain rfl := Option.some.inj hw
      unfold WaitFunction.admits at h
      simpa [deviceWait, Device.isPeer, Stream.device, Device.backend] using h

/-! ## Steps of threads -/

theorem Stocked.notification (h : x.Stocked) {i : Nat} {n : Notification}
    (hn : x.notifications[i]? = some n) : ∃ u k, n.stream.worker? = some u ∧ n.marker? = some k ∧
      x.machine.Has u ∧ x.mark? i = some (u, k) := by
  obtain ⟨u, k, hu, hk, hhas, -⟩ := h.notifications n (List.mem_of_getElem? hn)
  exact ⟨u, k, hu, hk, hhas, mark?_eq_some.mpr ⟨n, hn, hu, hk⟩⟩

/-- A call that only tells how it ended. -/
theorem calm_done (t : Nat) {a : Happening} (ha : IsAnswer a) : Calm x (x.done t a) where
  pushes := ⟨nothing, Pushes.refl _, by simp [nothing]⟩
  silent := .refl _
  log := Or.inr ⟨a, rfl, ha⟩
  jobs := rfl
  notifications := .refl _
  streams _ hs := Or.inl hs
  threads _ hc := Or.inl (mem_set_none hc)

theorem went_proceed (h : x.Stocked) {t : Nat} {c : Call} (hc : some c ∈ x.threads)
    (hp : x.proceed t c = some x') : Went x x' := by
  cases c with
  | activating i =>
      obtain ⟨n, hn, rfl⟩ := Option.map_eq_some_iff.mp hp
      exact .acted (.activated hn (h.threads _ hc))
  | onDevice consumer i =>
      obtain ⟨n, hn, hp⟩ := Option.bind_eq_some_iff.mp hp
      obtain ⟨m, hm, rfl⟩ := Option.map_eq_some_iff.mp hp
      obtain ⟨⟨w, hw, hhas⟩, n', hn', hadmits⟩ := h.threads _ hc
      obtain rfl := Option.some.inj (hn.symm.trans hn')
      obtain ⟨u, k, hu, hk, -, hmark⟩ := h.notification hn
      obtain ⟨hready, rfl⟩ := complete_device hu hk hw hm
      exact .acted (.waited hn hready hmark hw (timeline_of_admits hu hw hadmits)
        (Stream.pushes_push hhas rfl) (silent_modify fun _ => rfl))
  | onHost i =>
      obtain ⟨n, hn, hp⟩ := Option.bind_eq_some_iff.mp hp
      obtain ⟨m, hm, rfl⟩ := Option.map_eq_some_iff.mp hp
      obtain ⟨u, k, hu, hk, hhas, hmark⟩ := h.notification hn
      obtain ⟨hready, hreached, rfl⟩ := complete_host hu hk hm
      have hlt : u.timeline < x.machine.timelines.length := by
        obtain ⟨t', -, ht', -⟩ := hhas.timeline
        exact (List.getElem?_eq_some_iff.mp ht').1
      rw [nextTick_eq hu]
      refine .acted (.resumed hn hready hmark hreached
        (Pushes.of_modify (fun _ => rfl) (fun _ _ => rfl) fun _ => Nat.le_refl _) fun t' => ?_)
      unfold events nextTick
      rw [timeline_modify]
      by_cases ht : u.timeline = t'
      · subst ht
        rw [if_pos ⟨rfl, hlt⟩, if_pos rfl]
        rfl
      · rw [if_neg fun hboth => ht hboth.1, if_neg (Ne.symm ht), List.append_nil]
  | flushing s number =>
      obtain ⟨reply, -, rfl⟩ := Option.map_eq_some_iff.mp hp
      cases reply with
      | ok u => exact .calm (calm_done t trivial)
      | error e => exact .calm (calm_done t trivial)

/-- Changing the machine, the streams or what jobs read, and being done with a call that waited for
    nothing. -/
theorem calm_of_pushes {m : Machine (Ticketed Job)} {more : Worker → List (Command (Ticketed Job))}
    {ss : List Stream} {ts : List (Option Call)} {ds : List Nat} {s : State} (hp : Pushes x.machine m more)
    (hmore : ∀ w, ∀ c ∈ more w, c = .flush ∨ c = .shutdown) (hsilent : Silent x.machine m)
    (hstreams : ∀ s ∈ ss, s ∈ x.streams ∨ Opened m s)
    (hthreads : ∀ c, some c ∈ ts → some c ∈ x.threads ∨ ∃ s number, c = .flushing s number) :
    Calm x { x with machine := m, streams := ss, threads := ts, dropped := ds, state := s } where
  pushes := ⟨more, hp, hmore⟩
  silent := hsilent
  log := Or.inl rfl
  jobs := rfl
  notifications := .refl _
  streams := hstreams
  threads c hc := (hthreads c hc).imp id fun hflush => by
    obtain ⟨s, number, rfl⟩ := hflush
    trivial

theorem went_launch (h : x.Stocked) {s : Stream} (hs : s ∈ x.streams) (label : String) (job : Job)
    (shares : Bool) : Went x (x.launch s label job shares) := by
  obtain ⟨w, hw, hhas⟩ := h.streams s hs
  obtain ⟨hpushes, hsilent⟩ := Stream.pushes_launch_only hw hhas label
    ({ ticket := x.jobs.length, job, shares } : Ticketed Job) shares
  exact .acted (.launched hw rfl hpushes hsilent)

theorem went_notify (h : x.Stocked) {s : Stream} (hs : s ∈ x.streams) (consumers : Nat) :
    Went x { x with
      machine := (s.notification consumers x.machine).2
      notifications := x.notifications ++ [(s.notification consumers x.machine).1] } := by
  obtain ⟨w, hw, hhas⟩ := h.streams s hs
  obtain ⟨hpushes, hmade, hmarkers⟩ := Stream.pushes_notification (h.streams s hs).on consumers
  rw [hmade]
  exact .acted (.notified hw (by rw [hw]; rfl) rfl hhas hpushes (hmarkers w hw)
    (Stream.silent_notification s consumers x.machine))

theorem notification?_eq_some {i : Nat} {n : Notification} (h : x.notification? i = some n) :
    x.notifications[i]? = some n := by
  unfold notification? at h
  split at h
  · cases h
  · exact h

theorem went_activate (h : x.Stocked) {t i : Nat} {n : Notification} (hn : x.notification? i = some n)
    (hnew : .recorded i ∉ x.log) : Went x { x.busy t (.activating i) with
      machine := n.record x.machine
      log := x.log ++ [.recorded i] } := by
  obtain ⟨u, k, hu, hk, hhas, hmark⟩ := h.notification (notification?_eq_some hn)
  exact .acted (.recorded hmark hnew (Notification.pushes_record_only hu hk hhas)
    (Notification.silent_record n x.machine))

theorem went_open {timeline : Nat} {provider : ProviderId} {s : Stream}
    {m : Machine (Ticketed Job)} (hlt : timeline < x.machine.timelines.length)
    (ho : (Device.sim timeline provider).openStream provider x.machine = .ok (s, m)) :
    Went x { x with machine := m, streams := x.streams ++ [s] } := by
  have hon : (Device.sim timeline provider).On x.machine := hlt
  have hopened := Plan.openStream_eq_ok hon ho
  refine .calm (calm_of_pushes hopened.pushes (by simp [nothing]) (Device.silent_openStream ho)
    (fun s' hs' => ?_) fun c hc => Or.inl hc)
  rcases List.mem_append.mp hs' with hold | hnew
  · exact Or.inl hold
  · obtain rfl := List.mem_singleton.mp hnew
    have hsim : ∃ w, s'.worker? = some w := by
      unfold Device.openStream at ho
      split at ho
      · cases ho
      · obtain ⟨rfl, -⟩ := Prod.mk.inj (Except.ok.inj ho)
        exact ⟨_, rfl⟩
    obtain ⟨w, hw⟩ := hsim
    exact Or.inr ⟨w, hw, (hopened.fresh s' List.mem_cons_self w hw).2⟩

/-! ## Steps of workers -/

theorem ticketed_run_eq_some {job : Ticketed Job} {s s' : State} {e : JobEffect (Ticketed Job)}
    (h : Ticketed.run exec job s = some (s', e)) : ∃ e₀, exec job.job s = some (s', e₀) ∧
      e.rest = (e₀.rest.map fun left => { job with job := left }) ∧ e.panicked = e₀.panicked ∧
        e.launched = e₀.launched ∧ e.releases = job.shares := by
  obtain ⟨⟨s₁, e₀⟩, hexec, hpair⟩ := Option.map_eq_some_iff.mp h
  obtain ⟨rfl, rfl⟩ := Prod.mk.inj hpair
  exact ⟨e₀, hexec, rfl, rfl, rfl, rfl⟩

theorem work_eq_some {w : Worker} (hw : x.work exec w = some x') : ∃ c s' m',
    x.machine.front? w = some c ∧ x.machine.step (Ticketed.run exec) w x.state = some (s', m') ∧
      x' = { x with machine := m', state := s', log := x.log ++ x.ending exec w c } := by
  unfold work at hw
  split at hw
  · cases hw
  next c hfront =>
  obtain ⟨⟨s', m'⟩, hstep, heq⟩ := Option.map_eq_some_iff.mp hw
  exact ⟨c, s', m', hfront, hstep, heq.symm⟩

theorem work_isSome {w : Worker} {r : State × Machine (Ticketed Job)}
    (h : x.machine.step (Ticketed.run exec) w x.state = some r) : (x.work exec w).isSome := by
  obtain ⟨c, hfront⟩ := exists_front? h
  unfold work
  rw [hfront, h]
  rfl

/-- A step of a worker goes on with the command it takes next. -/
theorem worked_of_work {w : Worker} (hw : x.work exec w = some x') : ∃ c front more stamps,
    x.machine.front? w = some c ∧ Worked x x' w c front more (x.ending exec w c) stamps := by
  obtain ⟨c, s', m', hfront, hstep, rfl⟩ := work_eq_some hw
  have hhead := head?_of_front? hfront
  obtain ⟨hevents, hreached⟩ := step_stamps hfront hstep
  obtain ⟨c', front, more, -, -, hhead', hpopped, htook⟩ := step_eq_some hstep
  obtain rfl : c = c' := Option.some.inj (hhead.symm.trans hhead')
  have hput : ∀ c ∈ more, c = .shutdown ∨ ∃ job, c = .fixed job := by
    intro c' hc'
    cases htook with
    | run _ hends =>
        rcases List.mem_append.mp hc' with hc' | hc'
        · obtain ⟨job, -, rfl⟩ := List.mem_map.mp hc'
          exact Or.inr ⟨job, rfl⟩
        · exact Or.inl (hends c' hc')
    | _ => cases hc'
  have hrecorded : ∀ k, c = .record k → k < x.machine.markerCount w.timeline →
      (m'.reachedAt w.timeline k).isSome := by
    rintro k rfl hlt
    cases htook with
    | record hreached => exact (hreached w.timeline k).mpr (Or.inr ⟨rfl, rfl, hlt⟩)
  have hprogress : Progress x.machine w c front (x.ending exec w c)
      (stamped (Ticketed.run exec) x.state c) := by
    cases htook with
    | @run label job e s' ends hexec =>
        obtain ⟨e₀, hexec₀, hrest, hpanicked, -⟩ := ticketed_run_eq_some hexec
        simp only [ending, stamped, hexec, hexec₀, hrest, hpanicked]
        cases e₀.rest with
        | some left => exact .on rfl
        | none =>
            cases e₀.panicked with
            | false => exact .ended
            | true => exact .panicked
    | fixed => exact .fixed
    | record => exact .record
    | wait hmarker => exact .wait hmarker
    | flush => exact .flush
    | shutdown => exact .shutdown
  exact ⟨c, front, more, _, hfront, {
    head := hhead
    popped := hpopped
    more := hput
    progress := hprogress
    log := rfl
    jobs := rfl
    notifications := rfl
    streams := rfl
    threads := rfl
    events := hevents
    reached := hreached
    recorded := hrecorded }⟩

/-! ## Steps -/

/-- The steps that can be made, each with what it needs and what comes of it. -/
inductive Stepped (exec : Executor Job State) (x : Workshop Job State) :
    Move Job State → Workshop Job State → Prop
  | device : Stepped exec x .device { x with machine := x.machine.addTimeline.2 }
  | thread : Stepped exec x .thread { x with threads := x.threads ++ [none] }
  | stream {t timeline : Nat} {provider : ProviderId} {s : Stream} {machine : Machine (Ticketed Job)} :
      timeline < x.machine.timelines.length →
      (Device.sim timeline provider).openStream provider x.machine = .ok (s, machine) →
      Stepped exec x (.stream t timeline provider) { x with machine, streams := x.streams ++ [s] }
  | launch {t : Nat} {s : Stream} {label : String} {job : Job} {shares : Bool} : s ∈ x.streams →
      Stepped exec x (.launch t s label job shares) (x.launch s label job shares)
  | notify {t consumers : Nat} {s : Stream} : s ∈ x.streams →
      Stepped exec x (.notify t s consumers) { x with
        machine := (s.notification consumers x.machine).2
        notifications := x.notifications ++ [(s.notification consumers x.machine).1] }
  | activate {t i : Nat} {n : Notification} : .recorded i ∉ x.log → x.notification? i = some n →
      Stepped exec x (.activate t i) { x.busy t (.activating i) with
        machine := n.record x.machine
        log := x.log ++ [.recorded i] }
  | waitOnDevice {t i : Nat} {consumer : Stream} {n : Notification} : consumer ∈ x.streams →
      x.notification? i = some n → Stepped exec x (.waitOnDevice t consumer i)
        (x.issue t i n deviceWait (some consumer) (.onDevice consumer i))
  | waitOnHost {t i : Nat} {n : Notification} : x.notification? i = some n →
      Stepped exec x (.waitOnHost t i) (x.issue t i n hostWait none (.onHost i))
  | flush {t : Nat} {s : Stream} : s ∈ x.streams →
      Stepped exec x (.flush t s)
        ({ x with machine := (s.postFlush x.machine).2 }.busy t (.flushing s (s.postFlush x.machine).1))
  | dropStream {t : Nat} {s : Stream} : s ∈ x.streams → x.free (·.usesStream s) = true →
      Stepped exec x (.dropStream t s) { x with machine := s.release x.machine, streams := x.streams.erase s }
  | dropNotification {t i : Nat} {n : Notification} : x.notification? i = some n →
      Stepped exec x (.dropNotification t i)
        { x with machine := n.stream.release x.machine, dropped := i :: x.dropped }
  | touch {t : Nat} {state : State} : Stepped exec x (.touch t state) { x with state }
  | proceed {t : Nat} {c : Call} {x' : Workshop Job State} : x.threads[t]? = some (some c) →
      x.proceed t c = some x' → Stepped exec x (.proceed t) x'
  | work {w : Worker} {x' : Workshop Job State} : x.work exec w = some x' → Stepped exec x (.work w) x'

theorem stepped_of_step {a : Move Job State} (hs : x.step exec a = some x') : Stepped exec x a x' := by
  cases a with
  | device => exact Option.some.inj hs ▸ .device
  | thread => exact Option.some.inj hs ▸ .thread
  | stream t timeline provider =>
      simp only [step] at hs
      split at hs
      next hguard =>
        split at hs
        next s m ho => exact Option.some.inj hs ▸ .stream hguard.2 ho
        · cases hs
      · cases hs
  | launch t s label job shares =>
      simp only [step] at hs
      split at hs
      next hguard => exact Option.some.inj hs ▸ .launch hguard.2
      · cases hs
  | notify t s consumers =>
      simp only [step] at hs
      split at hs
      next hguard => exact Option.some.inj hs ▸ .notify hguard.2
      · cases hs
  | activate t i =>
      simp only [step] at hs
      split at hs
      next hguard =>
        obtain ⟨n, hn, rfl⟩ := Option.map_eq_some_iff.mp hs
        exact .activate hguard.2 hn
      · cases hs
  | waitOnDevice t consumer i =>
      simp only [step] at hs
      split at hs
      next hguard =>
        obtain ⟨n, hn, rfl⟩ := Option.map_eq_some_iff.mp hs
        exact .waitOnDevice hguard.2 hn
      · cases hs
  | waitOnHost t i =>
      simp only [step] at hs
      split at hs
      · obtain ⟨n, hn, rfl⟩ := Option.map_eq_some_iff.mp hs
        exact .waitOnHost hn
      · cases hs
  | flush t s =>
      simp only [step] at hs
      split at hs
      next hguard => exact Option.some.inj hs ▸ .flush hguard.2
      · cases hs
  | dropStream t s =>
      simp only [step] at hs
      split at hs
      next hguard => exact Option.some.inj hs ▸ .dropStream hguard.2.1 hguard.2.2
      · cases hs
  | dropNotification t i =>
      simp only [step] at hs
      split at hs
      · obtain ⟨n, hn, rfl⟩ := Option.map_eq_some_iff.mp hs
        exact .dropNotification hn
      · cases hs
  | touch t state =>
      simp only [step] at hs
      split at hs
      · exact Option.some.inj hs ▸ .touch
      · cases hs
  | proceed t =>
      simp only [step] at hs
      split at hs
      next c hc => exact .proceed hc hs
      · cases hs
  | work w => exact .work hs

/-- **Everything a step can do.** -/
theorem Stocked.went (h : x.Stocked) {a : Move Job State} (hs : x.step exec a = some x') : Went x x' := by
  cases stepped_of_step hs with
  | device =>
      exact .calm (calm_of_pushes (pushes_addTimeline _) (by simp [nothing]) (silent_addTimeline _)
        (fun s hs => Or.inl hs) fun c hc => Or.inl hc)
  | thread =>
      refine .calm (calm_of_pushes (Pushes.refl _) (by simp [nothing]) (.refl _)
        (fun s hs => Or.inl hs) fun c hc => Or.inl ?_)
      simpa using hc
  | stream hlt ho => exact went_open hlt ho
  | @launch _ _ label job shares hmem => exact went_launch h hmem label job shares
  | notify hmem => exact went_notify h hmem _
  | activate hnew hn => exact went_activate h hn hnew
  | @waitOnDevice _ _ _ n hmem hn =>
      have hn' := notification?_eq_some hn
      refine .calm (calm_issue hn' fun hadmits k =>
        ⟨h.streams _ hmem, { n with waits := k }, ?_, hadmits⟩)
      simp [put, (List.getElem?_eq_some_iff.mp hn').1]
  | waitOnHost hn => exact .calm (calm_issue (notification?_eq_some hn) fun _ _ => trivial)
  | @flush _ s hmem =>
      obtain ⟨hpushes, -⟩ := Stream.pushes_postFlush (h.streams s hmem).on
      refine .calm (calm_of_pushes hpushes (fun w c hc => Or.inl ?_) (Stream.silent_postFlush s x.machine)
        (fun s hs => Or.inl hs) fun c hc => (mem_set_threads hc).imp id fun heq => ⟨s, _, heq⟩)
      unfold Stream.putting at hc
      split at hc
      · exact List.mem_singleton.mp hc
      · cases hc
  | @dropStream _ s hmem =>
      obtain ⟨more, hpushes, hshut⟩ := Stream.pushes_release (h.streams s hmem).on
      exact .calm (calm_of_pushes hpushes (fun w c hc => Or.inr (hshut w c hc))
        (Stream.silent_release s x.machine) (fun s hs => Or.inl (List.mem_of_mem_erase hs))
        fun c hc => Or.inl hc)
  | @dropNotification _ _ n hn =>
      obtain ⟨u, k, hu, -, hhas, -⟩ := h.notification (notification?_eq_some hn)
      have hon : n.stream.On x.machine := Opened.on ⟨u, hu, hhas⟩
      obtain ⟨more, hpushes, hshut⟩ := Stream.pushes_release hon
      exact .calm (calm_of_pushes hpushes (fun w c hc => Or.inr (hshut w c hc))
        (Stream.silent_release n.stream x.machine) (fun s hs => Or.inl hs) fun c hc => Or.inl hc)
  | touch =>
      exact .calm (calm_of_pushes (Pushes.refl _) (by simp [nothing]) (.refl _)
        (fun s hs => Or.inl hs) fun c hc => Or.inl hc)
  | proceed hc hp => exact went_proceed h (List.mem_of_getElem? hc) hp
  | work hw =>
      obtain ⟨_, _, _, _, -, hwork⟩ := worked_of_work hw
      exact .worked hwork

/-! ## What stays -/

theorem Act.pushes (h : Act x x') : ∃ more, Pushes x.machine x'.machine more := by
  cases h with
  | launched _ _ hp => exact ⟨_, hp⟩
  | notified _ _ _ _ hp => exact ⟨_, hp⟩
  | recorded _ _ hp => exact ⟨_, hp⟩
  | activated => exact ⟨_, Pushes.refl _⟩
  | waited _ _ _ _ _ hp => exact ⟨_, hp⟩
  | resumed _ _ _ _ hp => exact ⟨_, hp⟩

theorem Went.grows (h : Went x x') : (∀ w, x.machine.Has w → x'.machine.Has w) ∧
    ∀ t, x.machine.markerCount t ≤ x'.machine.markerCount t := by
  cases h with
  | calm h =>
      obtain ⟨more, hp, -⟩ := h.pushes
      exact ⟨hp.has, hp.markers⟩
  | acted h =>
      obtain ⟨more, hp⟩ := h.pushes
      exact ⟨hp.has, hp.markers⟩
  | worked h => exact ⟨fun w => (h.popped.has w).mpr, fun t => Nat.le_of_eq (h.popped.markers t).symm⟩

/-- What becomes known for the first time. -/
def IsNew (x : Workshop Job State) : Happening → Prop
  | .launched j => j = x.jobs.length
  | .recorded i => .recorded i ∉ x.log
  | _ => True

theorem Worked.news_one {w : Worker} {c : Command (Ticketed Job)}
    {front more : List (Command (Ticketed Job))} {news : List Happening} {stamps : List Occurrence}
    (h : Worked x x' w c front more news stamps) : news = [] ∨ ∃ j tick, news = [.ended j tick] := by
  have hprogress := h.progress
  cases hprogress with
  | ended => exact Or.inr ⟨_, _, rfl⟩
  | panicked => exact Or.inr ⟨_, _, rfl⟩
  | _ => exact Or.inl rfl

/-- A step makes at most one thing known. -/
theorem Went.log (h : Went x x') : x'.log = x.log ∨ ∃ a, x'.log = x.log ++ [a] ∧ IsNew x a := by
  cases h with
  | calm h =>
      refine h.log.imp id fun ⟨a, hlog, hanswer⟩ => ⟨a, hlog, ?_⟩
      cases a <;> trivial
  | acted h => cases h with
    | launched => exact Or.inr ⟨_, rfl, rfl⟩
    | notified => exact Or.inl rfl
    | recorded _ hnew => exact Or.inr ⟨_, rfl, hnew⟩
    | activated => exact Or.inr ⟨_, rfl, trivial⟩
    | waited => exact Or.inr ⟨_, rfl, trivial⟩
    | resumed => exact Or.inr ⟨_, rfl, trivial⟩
  | worked h =>
      rw [h.log]
      rcases h.news_one with rfl | ⟨j, tick, rfl⟩
      · exact Or.inl (List.append_nil _)
      · exact Or.inr ⟨_, rfl, trivial⟩

theorem Went.mem_log (h : Went x x') {a : Happening} (ha : a ∈ x.log) : a ∈ x'.log := by
  rcases h.log with hsame | ⟨b, happend, -⟩
  · rw [hsame]
    exact ha
  · rw [happend]
    exact List.mem_append_left _ ha

theorem Went.jobs (h : Went x x') : x'.jobs = x.jobs ∨ ∃ s label w,
    s.worker? = some w ∧ x'.jobs = x.jobs ++ [(s, label)] := by
  cases h with
  | calm h => exact Or.inl h.jobs
  | acted h => cases h with
    | launched hw => exact Or.inr ⟨_, _, _, hw, rfl⟩
    | _ => exact Or.inl rfl
  | worked h => exact Or.inl h.jobs

/-- Notifications stay where they are; at most one is added. -/
theorem Went.notifications (h : Went x x') :
    (∀ i : Nat, (x'.notifications[i]?).map place = (x.notifications[i]?).map place) ∨
      ∃ n u, n.stream.worker? = some u ∧ n.marker? = some (x.machine.markerCount u.timeline) ∧
        x.machine.Has u ∧ x'.machine.markerCount u.timeline = x.machine.markerCount u.timeline + 1 ∧
        x'.notifications = x.notifications ++ [n] ∧ x'.log = x.log ∧ n.ready = false := by
  cases h with
  | calm h => exact Or.inl h.notifications.places
  | acted h => cases h with
    | notified hu hk hready hhas _ hcount => exact Or.inr ⟨_, _, hu, hk, hhas, hcount, rfl, rfl, hready⟩
    | activated hn => exact Or.inl (map_getElem?_set hn rfl)
    | _ => exact Or.inl fun _ => rfl
  | worked h => exact Or.inl fun i => by rw [h.notifications]

theorem mark?_of_place {i : Nat} (h : (x'.notifications[i]?).map place = (x.notifications[i]?).map place) :
    x'.mark? i = x.mark? i := by
  unfold mark?
  cases hn : x.notifications[i]? with
  | none =>
      rw [hn] at h
      rw [Option.map_eq_none_iff.mp h]
  | some n =>
      rw [hn] at h
      obtain ⟨n', hn', hplace⟩ := Option.map_eq_some_iff.mp h
      obtain ⟨hstream, hmarker⟩ := Prod.mk.inj hplace
      rw [hn', Option.bind_some, Option.bind_some, hstream, hmarker]

theorem Went.mark (h : Went x x') {i : Nat} {p : Worker × Nat} (hp : x.mark? i = some p) :
    x'.mark? i = some p := by
  rcases h.notifications with hsame | ⟨n, u, -, -, -, -, happend, -⟩
  · rw [mark?_of_place (hsame i), hp]
  · obtain ⟨n', hn', -⟩ := mark?_eq_some.mp hp
    refine (mark?_of_place ?_).trans hp
    rw [happend, List.getElem?_append_left (List.getElem?_eq_some_iff.mp hn').1]

theorem Went.home (h : Went x x') {j : Nat} {p : Worker × String} (hp : x.home? j = some p) :
    x'.home? j = some p := by
  rcases h.jobs with hsame | ⟨s, label, w, -, happend⟩
  · rw [home?, hsame]
    exact hp
  · obtain ⟨s', hj, hw'⟩ := home?_eq_some.mp hp
    refine home?_eq_some.mpr ⟨s', ?_, hw'⟩
    rw [happend, List.getElem?_append_left (List.getElem?_eq_some_iff.mp hj).1]
    exact hj

/-! ## What there is stays there -/

theorem Stocked.empty (state : State) (strict : Bool) :
    ({ state, strict } : Workshop Job State).Stocked where
  streams _ hs := nomatch hs
  notifications _ hn := nomatch hn
  threads _ hc := nomatch hc

theorem Went.admitted (h : Went x x') {c : Call} (hc : x.Admitted c) : x'.Admitted c := by
  cases c with
  | activating i => exact h.mem_log hc
  | onDevice consumer i =>
      obtain ⟨⟨w, hw, hhas⟩, n, hn, hadmits⟩ := hc
      refine ⟨⟨w, hw, h.grows.1 w hhas⟩, ?_⟩
      rcases h.notifications with hsame | ⟨n', u, -, -, -, -, happend, -⟩
      · have hplace := hsame i
        rw [hn] at hplace
        obtain ⟨n', hn', hplace⟩ := Option.map_eq_some_iff.mp hplace
        exact ⟨n', hn', by rw [(Prod.mk.inj hplace).1]; exact hadmits⟩
      · refine ⟨n, ?_, hadmits⟩
        rw [happend, List.getElem?_append_left (List.getElem?_eq_some_iff.mp hn).1]
        exact hn
  | onHost i => trivial
  | flushing s number => trivial

theorem Stocked.streams_kept (h : x.Stocked) (hw : Went x x') : ∀ s ∈ x'.streams, Opened x'.machine s := by
  have hold : ∀ s ∈ x.streams, Opened x'.machine s := by
    intro s hs
    obtain ⟨w, hworker, hhas⟩ := h.streams s hs
    exact ⟨w, hworker, hw.grows.1 w hhas⟩
  cases hw with
  | calm hcalm => exact fun s hs => (hcalm.streams s hs).elim (hold s) id
  | acted hact => cases hact <;> exact hold
  | worked hwork => exact hwork.streams ▸ hold

theorem Stocked.threads_kept (h : x.Stocked) (hw : Went x x') :
    ∀ c, some c ∈ x'.threads → x'.Admitted c := by
  have hold : ∀ c, some c ∈ x.threads → x'.Admitted c := fun c hc => hw.admitted (h.threads c hc)
  cases hw with
  | calm hcalm => exact fun c hc => (hcalm.threads c hc).elim (hold c) id
  | acted hact => cases hact with
    | launched => exact hold
    | notified => exact hold
    | recorded =>
        refine fun c hc => (mem_set_threads hc).elim (hold c) fun heq => ?_
        subst heq
        exact List.mem_append_right _ (List.mem_singleton_self _)
    | activated => exact fun c hc => hold c (mem_set_none hc)
    | waited => exact fun c hc => hold c (mem_set_none hc)
    | resumed => exact fun c hc => hold c (mem_set_none hc)
  | worked hwork => exact fun c hc => hold c (hwork.threads ▸ hc)

theorem Stocked.step (h : x.Stocked) (hw : Went x x') : x'.Stocked where
  streams := h.streams_kept hw
  notifications := by
    obtain ⟨hhas, hmarkers⟩ := hw.grows
    have hold : ∀ n ∈ x.notifications, ∀ n', place n' = place n → Made x'.machine n' := by
      intro n hn n' hplace
      obtain ⟨u, k, hu, hk, hin, hlt⟩ := h.notifications n hn
      obtain ⟨hstream, hmarker⟩ := Prod.mk.inj hplace
      exact ⟨u, k, hstream ▸ hu, hmarker ▸ hk, hhas u hin, Nat.lt_of_lt_of_le hlt (hmarkers _)⟩
    intro n' hn'
    rcases hw.notifications with hsame | ⟨n, u, hu, hk, hin, hcount, happend, -⟩
    · obtain ⟨i, hi⟩ := List.mem_iff_getElem?.mp hn'
      have hplace := (hsame i).symm
      rw [hi] at hplace
      obtain ⟨n, hn, hplace⟩ := Option.map_eq_some_iff.mp hplace
      exact hold n (List.mem_of_getElem? hn) n' hplace.symm
    · rw [happend] at hn'
      rcases List.mem_append.mp hn' with hmem | hnew
      · exact hold n' hmem n' rfl
      · rw [List.mem_singleton.mp hnew]
        exact ⟨u, _, hu, hk, hhas u hin, by omega⟩
  threads := h.threads_kept hw

theorem Reached.stocked (h : Reached exec x) : x.Stocked := by
  induction h with
  | empty state strict => exact .empty state strict
  | step _ hs ih => exact ih.step (ih.went hs)

/-- **What holds at the start and is kept by everything a step can do holds at any time.** -/
theorem Reached.kept {P : Workshop Job State → Prop} (empty : ∀ state strict, P { state, strict })
    (step : ∀ {x x'}, x.Stocked → P x → Went x x' → P x') (h : Reached exec x) : P x := by
  induction h with
  | empty state strict => exact empty state strict
  | step hreached hs ih => exact step hreached.stocked ih (hreached.stocked.went hs)

end Workshop

end OpGraph
