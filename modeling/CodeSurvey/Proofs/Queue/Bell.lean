-- The bell of a queue. It is rung by whoever brings a job that can be started or
-- frees a repository, some steps after the table has changed, and however often it
-- is rung it is heard once. Still no job is forgotten: while the drain waits for
-- the bell, a job that could be started has somebody who is about to ring.
import CodeSurvey.Proofs.Job.Turn
import CodeSurvey.Proofs.Queue.Slots

namespace CodeSurvey

/-! ## Jobs that could be started -/

namespace JobTable

theorem next?_eq_none {t : JobTable} (h : t.next? = none) (j : Job) : ¬ t.Waits j := by
  intro hw
  unfold next? at h
  have := List.find?_eq_none.1 h j hw.mem
  simp [hw.pending, isBusy_eq_false.2 hw.free] at this

/-- A job comes to wait for nothing but a start when it is asked for, or when another one ends. -/
theorem waits_of_play {t : JobTable} (hn : t.ids.Nodup) {m : TableMove} {j : Job}
    (hw : (t.play m).Waits j) :
    t.Waits j ∨ (∃ id request now, m = .enqueue id request now) ∨
      ∃ id outcome now, m = .finish id outcome now := by
  obtain ⟨hmem, hpending, hfree⟩ := hw
  have hp := played hn m
  generalize t.play m = t' at hp hmem hfree
  cases hp with
  | pushed => exact .inr (.inl ⟨_, _, _, rfl⟩)
  | @turned _ i k mem turn =>
    have hput : ∀ {x}, x ∈ (t.put k).jobs ↔ x = k ∨ x ∈ t.jobs ∧ x ≠ i := mem_put hn mem turn.same.1
    -- whoever is worked on before a change other than an end is worked on behind it
    have hstays : (i.status = .processing → k.status = .processing) → k.status ≠ .pending →
        t.Waits j := by
      intro hkeeps hk
      have hj : j ∈ t.jobs := by
        rcases hput.1 hmem with rfl | ⟨hj, -⟩
        · exact absurd hpending hk
        · exact hj
      refine ⟨hj, hpending, fun x hx hr hs => ?_⟩
      by_cases hxi : x = i
      · subst hxi
        exact hfree k (hput.2 (.inl rfl)) (turn.same.2.2.1.trans hr) (hkeeps hs)
      · exact hfree x (hput.2 (.inr ⟨hx, hxi⟩)) hr hs
    cases turn with
    | withdrawn pending => exact .inl (hstays (by simp [pending]) (by simp [Job.withdrawn]))
    | reported processing =>
      exact .inl (hstays (by simp [Job.reported]) (by simp [Job.reported, processing]))
    | begun => exact .inl (hstays (by simp [Job.begun]) (by simp [Job.begun]))
    | ended => exact .inr (.inr ⟨_, _, _, rfl⟩)
  | @evicted keep now ids =>
    refine .inl ⟨(List.mem_filter.1 hmem).1, hpending, fun x hx hr hs => ?_⟩
    refine hfree x (List.mem_filter.2 ⟨hx, ?_⟩) hr hs
    simp [Job.isExpired, hs, JobStatus.isTerminal]
  | refused => exact .inl ⟨hmem, hpending, hfree⟩

end JobTable

/-! ## Who rings the bell -/

/-- The call goes on to ring the bell. -/
def Call.rings : Call → Bool
  | telling _ rings => rings
  | ringing => true
  | evicting _ _ => false

namespace Queue

variable {σ : Type}

/-- A call or a task is on its way to ring the bell. -/
def Owes (q : Queue σ) : Prop :=
  (∃ c ∈ q.calls, c.rings = true) ∨ ∃ t ∈ q.tasks, t.stage.isOpen = false

/-- Some job could be started. -/
def Hungry (q : Queue σ) : Prop := ∃ j, q.table.Waits j

theorem Owes.of_calls {q q' : Queue σ} (howes : q.Owes)
    (hcalls : ∀ c ∈ q.calls, c.rings = true → c ∈ q'.calls) (htasks : q'.tasks = q.tasks) :
    q'.Owes := by
  rcases howes with ⟨c, hc, hr⟩ | ht
  · exact .inl ⟨c, hcalls c hc hr, hr⟩
  · exact .inr (htasks ▸ ht)

/-- What holds between the bell, the drain and those who ring. -/
structure Alert (q : Queue σ) : Prop where
  /-- A ring that the drain waits for is not put off. -/
  heard : q.drain = .waiting → q.rung = false
  owed : q.drain = .resting ∨ q.drain = .waiting → q.rung = false → q.Hungry → q.Owes
  on : q.started = true → q.drain ≠ .off
  going : q.drain = .stopped → q.stopping = true

theorem alert_fresh (settings : QueueSettings) (shared : σ) : Alert (fresh settings shared) where
  heard h := by cases h
  owed h := by rcases h with h | h <;> cases h
  on h := by cases h
  going h := by cases h

/-! ## One step -/

/-- After a step that asks neither for a job nor for an end, no job more could be started. -/
theorem hungry_of_step {q q' : Queue σ} {m : Move σ} {signals : List Signal}
    (made : q.step m = some (signals, q')) (hn : q.table.ids.Nodup)
    (hnew : ∀ id request now, q.tableMove? m ≠ some (.enqueue id request now))
    (hend : ∀ id outcome now, q.tableMove? m ≠ some (.finish id outcome now)) (hq : q'.Hungry) :
    q.Hungry := by
  obtain ⟨j, hw⟩ := hq
  rw [(step_table made).1, tableAfter] at hw
  cases hm : q.tableMove? m with
  | none => exact ⟨j, by simpa [hm] using hw⟩
  | some c =>
    rw [hm] at hw
    rcases JobTable.waits_of_play hn hw with hw | ⟨id, r, now, rfl⟩ | ⟨id, o, now, rfl⟩
    · exact ⟨j, hw⟩
    · exact absurd hm (hnew id r now)
    · exact absurd hm (hend id o now)

namespace Alert

variable {q q' : Queue σ}

/-- What leaves drain and bell keeps the queue alert, when nobody who rings goes away and whoever
makes a job startable rings. -/
theorem kept (al : Alert q) (hdrain : q'.drain = q.drain) (hrung : q'.rung = q.rung)
    (hstarted : q'.started = q.started) (hstopping : q.stopping = true → q'.stopping = true)
    (hrings : q.Owes → q'.Owes) (hungry : q'.Hungry → q.Hungry ∨ q'.Owes) : Alert q' where
  heard h := by
    rw [hrung]
    exact al.heard (hdrain ▸ h)
  owed h hstill hq := by
    rw [hdrain] at h
    rcases hungry hq with hq | howes
    · exact hrings (al.owed h (hrung ▸ hstill) hq)
    · exact howes
  on h := by
    rw [hdrain]
    exact al.on (hstarted ▸ h)
  going h := hstopping (al.going (hdrain ▸ h))

/-- Once the bell was rung, nobody has to ring. -/
theorem rung {q₁ : Queue σ} (al : Alert q) (hrung : Rung q₁ q') (hdrain : q₁.drain = q.drain)
    (hstarted : q₁.started = q.started) (hstopping : q₁.stopping = q.stopping) : Alert q' := by
  cases hrung with
  | wakes at_ => exact ⟨by simp, by simp, by simp, by simp⟩
  | later at_ =>
    refine ⟨fun h => absurd h at_, by simp, fun h => ?_, fun h => ?_⟩
    · rw [show _ = q.drain from hdrain]
      exact al.on (hstarted ▸ h)
    · rw [show _ = q.stopping from hstopping]
      exact al.going (hdrain ▸ h)

theorem asked {m : Move σ} {signals : List Signal} (al : Alert q) (hn : q.table.ids.Nodup)
    (made : q.step m = some (signals, q')) (hasked : Asked q m signals q') : Alert q' := by
  have hungry := hungry_of_step made hn
  cases hasked with
  | enqueued new =>
    refine al.kept rfl rfl rfl id ?_
      fun _ => .inr (.inl ⟨_, List.mem_append_right _ (.head _), rfl⟩)
    exact fun howes => howes.of_calls (fun c hc _ => List.mem_append_left _ hc) rfl
  | cancelled | reported | sweeping =>
    refine al.kept rfl rfl rfl id ?_ fun hq => .inl (hungry (by simp [tableMove?])
      (by simp [tableMove?]) hq)
    exact fun howes => howes.of_calls (fun c hc _ => List.mem_append_left _ hc) rfl
  | started first => exact ⟨by simp, by simp, by simp, by simp⟩
  | stopping => exact al.kept rfl rfl rfl (fun _ => rfl) id .inl
  | _ => exact al.kept rfl rfl rfl id id .inl

theorem proceeded {before after : List Call} {call : Call} {signals : List Signal} (al : Alert q)
    (hn : q.table.ids.Nodup) (place : q.calls = before ++ call :: after)
    (made : q.step (.proceed before.length) = some (signals, q'))
    (hproceeded : Proceeded q before after call signals q') : Alert q' := by
  have hungry := hungry_of_step made hn
  have hcall : q.calls[before.length]? = some call := by simp [place]
  cases hproceeded with
  | told | evicts =>
    refine al.kept rfl rfl rfl id ?_ fun hq => .inl (hungry (by simp [tableMove?, hcall])
      (by simp [tableMove?, hcall]) hq)
    refine fun howes => howes.of_calls (fun c hc hr => ?_) rfl
    rcases (mem_place place).1 hc with rfl | hc
    · cases hr
    · exact hc
  | toldToRing =>
    have howes : Owes { q with calls := before ++ .ringing :: after } :=
      .inl ⟨.ringing, by simp, rfl⟩
    exact al.kept rfl rfl rfl id (fun _ => howes) .inl
  | rings hrung => exact al.rung hrung rfl rfl rfl

theorem drained {now : Instant} {signals : List Signal} (al : Alert q)
    (hdrained : Drained q now signals q') : Alert q' := by
  cases hdrained with
  | stops _ asked => exact ⟨by simp, by simp, by simp, fun _ => asked⟩
  | findsNone at_ none_ =>
    have hnext : q.table.next? = none := by simpa [JobTable.claim] using none_
    refine ⟨by simp, ?_, by simp, by simp⟩
    rintro - - ⟨j, hw⟩
    exact absurd hw (JobTable.next?_eq_none hnext j)
  | waits at_ still =>
    exact ⟨fun _ => still, fun _ hrung hq => al.owed (.inl at_) hrung hq, by simp, by simp⟩
  | _ => exact ⟨by simp, by simp, by simp, by simp⟩

/-- So does a step of a task, when the task still rings if it was about to, and rings if it makes a
job startable. -/
theorem restaged {before after : List (Task σ)} {id : String} {stage stage' : Stage σ} (al : Alert q)
    (place : q.tasks = before ++ ⟨id, stage⟩ :: after)
    (place' : q'.tasks = before ++ ⟨id, stage'⟩ :: after) (hdrain : q'.drain = q.drain)
    (hrung : q'.rung = q.rung) (hstarted : q'.started = q.started)
    (hstopping : q'.stopping = q.stopping) (hcalls : q'.calls = q.calls)
    (hopen : stage.isOpen = false → stage'.isOpen = false)
    (hungry : q'.Hungry → q.Hungry ∨ stage'.isOpen = false) : Alert q' := by
  refine al.kept hdrain hrung hstarted (fun h => hstopping.trans h) ?_ ?_
  · rintro (⟨c, hc, hr⟩ | ⟨t, ht, ho⟩)
    · exact .inl ⟨c, hcalls ▸ hc, hr⟩
    · rcases (mem_place place).1 ht with rfl | ht
      · exact .inr ⟨_, (mem_place place').2 (.inl rfl), hopen ho⟩
      · exact .inr ⟨t, (mem_place place').2 (.inr ht), ho⟩
  · intro hq
    rcases hungry hq with hq | ho
    · exact .inl hq
    · exact .inr (.inr ⟨⟨id, stage'⟩, by simp [place'], ho⟩)

theorem advanced {before after : List (Task σ)} {id : String} {stage : Stage σ} {now : Instant}
    {signals : List Signal} (al : Alert q) (hn : q.table.ids.Nodup)
    (place : q.tasks = before ++ ⟨id, stage⟩ :: after)
    (made : q.step (.advance before.length now) = some (signals, q'))
    (hadvanced : Advanced q before after id now stage signals q') : Alert q' := by
  have htask : q.tasks[before.length]? = some ⟨id, stage⟩ := by simp [place]
  cases hadvanced with
  | unhandled | handed | told | released =>
    exact al.restaged place rfl rfl rfl rfl rfl rfl (by simp [Stage.isOpen]) .inl
  | worked works =>
    have hopen : stage.isOpen = true := Stage.isOpen_of_fate? works.going.2.choose_spec.1
    have hmove : ∀ c, q.tableMove? (.advance before.length now) = some c → c.request? = none ∧
        ∀ i o t, c ≠ .finish i o t := by
      intro c hc
      cases works <;> simp only [tableMove?, htask, Option.some.injEq, reduceCtorEq] at hc
      all_goals
        subst hc
        simp
    refine al.restaged place rfl rfl rfl rfl rfl rfl (by simp [hopen]) fun hq => .inl ?_
    exact hungry_of_step made hn (fun i r t hm => by simpa using (hmove _ hm).1)
      (fun i o t hm => (hmove _ hm).2 i o t rfl) hq
  | finished | notFinished =>
    exact al.restaged place rfl rfl rfl rfl rfl rfl (fun _ => rfl) fun _ => .inr rfl
  | gone hrung => exact al.rung hrung rfl rfl rfl

theorem step {m : Move σ} {signals : List Signal} (al : Alert q) (hn : q.table.ids.Nodup)
    (made : q.step m = some (signals, q')) : Alert q' := by
  cases step_moved made with
  | asked hasked => exact al.asked hn made hasked
  | proceeded place hproceeded => exact al.proceeded hn place made hproceeded
  | drained hdrained => exact al.drained hdrained
  | drainedOff stopping hdrained =>
    cases hdrained <;> exact ⟨by simp, by simp, by simp, fun _ => stopping⟩
  | advanced place hadvanced => exact al.advanced hn place made hadvanced

end Alert

theorem Reached.alert {settings : QueueSettings} {shared : σ} {h : History} {q : Queue σ}
    (reached : Reached settings shared h q) : Alert q := by
  induction reached with
  | fresh => exact alert_fresh settings shared
  | step before made ih => exact ih.step before.ids_nodup made

/-! ## Still queues -/

/-- The queue makes the step on its own. -/
def Move.isOwn : Move σ → Bool
  | proceed _ => true
  | drainOn _ => true
  | drainOff => true
  | advance _ _ => true
  | _ => false

/-- No handler is at work, no call is under way, and the queue can make no step on its own. -/
structure Still (q : Queue σ) : Prop where
  executing : q.executing = 0
  calls : q.calls = []
  stuck : ∀ m : Move σ, m.isOwn = true → q.step m = none

/-- A task whose handler is not at work can go on. -/
theorem advance_isSome {q : Queue σ} {n : Nat} {t : Task σ} (ht : q.tasks[n]? = some t)
    (hexec : t.stage.isExecuting = false) (now : Instant) : (q.advance n now).isSome := by
  obtain ⟨id, stage⟩ := t
  unfold advance
  cases stage with
  | running => cases hexec
  | reporting => cases hexec
  | looking job =>
    simp only [ht]
    split <;> rfl
  | ended outcome =>
    simp only [ht]
    split <;> rfl
  | _ => simp [ht]

theorem Still.tasks {q : Queue σ} (still : Still q) : q.tasks = [] := by
  rw [List.eq_nil_iff_forall_not_mem]
  intro t ht
  obtain ⟨n, hn⟩ := List.mem_iff_getElem?.1 ht
  have hexec : t.stage.isExecuting = false := by
    simpa using List.countP_eq_zero.1 still.executing t ht
  have := advance_isSome hn hexec ⟨0⟩
  rw [show q.advance n ⟨0⟩ = none from still.stuck (.advance n ⟨0⟩) rfl] at this
  cases this

/-- Where the drain can be when it cannot go on. -/
theorem Still.drain {q : Queue σ} (still : Still q) :
    q.drain = .off ∨ q.drain = .stopped ∨ q.drain = .waiting ∨ q.drain = .acquiring ∧ q.free = 0 := by
  have hnone : q.drainOn ⟨0⟩ = none := still.stuck (.drainOn ⟨0⟩) rfl
  unfold drainOn at hnone
  cases hdrain : q.drain with
  | acquiring => simpa [hdrain] using hnone
  | claiming =>
    simp only [hdrain] at hnone
    split at hnone <;> cases hnone
  | _ => simp_all

/-! ## The law -/

/-- No ring of the bell is lost. In a queue that was started and shall not stop, while the drain
waits for the bell no ring is left over, and each job that waits has a job of its repository at
work, or a call that brought a job or a task whose job has ended is on its way to ring; while the
drain waits for a slot all of them are held by tasks; and when the queue stands still, no job
waits. -/
theorem no_ring_is_lost {settings : QueueSettings} {shared : σ} {h : History} {q : Queue σ}
    (reached : Reached settings shared h q) (started : q.started = true)
    (going : q.stopping = false) :
    (q.drain = .waiting → q.rung = false ∧ ∀ j ∈ q.table.jobs, j.status = .pending →
      (∃ k ∈ q.table.jobs, k.repository = j.repository ∧ k.status = .processing) ∨
        (∃ c ∈ q.calls, c.rings = true) ∨
        ∃ t ∈ q.tasks, t.stage.isOpen = false ∧ ¬ q.table.Stands t.job .processing ∧
          ¬ q.table.Stands t.job .pending) ∧
    (q.drain = .acquiring → q.free = 0 →
      q.tasks.countP (·.stage.holdsSlot) = max 1 settings.concurrency.toNat) ∧
    (Still q → ∀ j ∈ q.table.jobs, j.status ≠ .pending) := by
  have al := reached.alert
  have acc := reached.accounted
  have hwaiting : q.drain = .waiting → ∀ j ∈ q.table.jobs, j.status = .pending →
      (∃ k ∈ q.table.jobs, k.repository = j.repository ∧ k.status = .processing) ∨ q.Owes := by
    intro hdrain j hj hs
    by_cases hbusy : ∃ k ∈ q.table.jobs, k.repository = j.repository ∧ k.status = .processing
    · exact .inl hbusy
    · have hwaits : q.table.Waits j := ⟨hj, hs, fun k hk hr hp => hbusy ⟨k, hk, hr, hp⟩⟩
      exact .inr (al.owed (.inr hdrain) (al.heard hdrain) ⟨j, hwaits⟩)
  have hslots : q.drain = .acquiring → q.free = 0 →
      q.tasks.countP (·.stage.holdsSlot) = max 1 settings.concurrency.toNat := by
    intro hdrain hfree
    have hslots : q.free + q.held = max 1 settings.concurrency.toNat := acc.slots
    simpa [held, hfree, hdrain, Drain.holdsSlot] using hslots
  refine ⟨fun hdrain => ⟨al.heard hdrain, fun j hj hs => ?_⟩, hslots, fun still j hj hs => ?_⟩
  · rcases hwaiting hdrain j hj hs with hbusy | hcall | ⟨t, ht, closed⟩
    · exact .inl hbusy
    · exact .inr (.inl hcall)
    · exact .inr (.inr ⟨t, ht, closed, reached.over ht closed⟩)
  · have htasks := still.tasks
    rcases still.drain with hoff | hstopped | hdrain | ⟨hdrain, hfree⟩
    · exact al.on started hoff
    · simp [al.going hstopped] at going
    · -- nobody is left who could be at work, or ring
      rcases hwaiting hdrain j hj hs with ⟨k, hk, -, hks⟩ | ⟨c, hc, -⟩ | ⟨t, ht, -⟩
      · rcases (acc.owned k.id).2 ⟨k, hk, rfl, hks⟩ with ⟨job, hjob, -⟩ | ⟨t, ht, -⟩
        · simp [hdrain, Drain.begun?] at hjob
        · simp [htasks] at ht
      · simp [still.calls] at hc
      · simp [htasks] at ht
    · have := hslots hdrain hfree
      rw [htasks, List.countP_nil] at this
      omega

/-- Two jobs are asked for while the drain waits, and neither call has rung yet. -/
def askedWhileWaiting : List (Move Unit) :=
  [.start, .drainOn ⟨0⟩, .drainOn ⟨0⟩, .drainOn ⟨0⟩, .drainOn ⟨0⟩,
    .enqueue "a" ⟨"work", "r", .null⟩ ⟨1⟩, .enqueue "b" ⟨"work", "r", .null⟩ ⟨1⟩, .proceed 0]

theorem no_ring_is_lost_of_two_calls :
    ∃ h q, Reached oneSlot () h q ∧ q.drain = .waiting ∧
      q.table.jobs.map (·.status) = [.pending, .pending] ∧ q.rung = false ∧
      ∀ j ∈ q.table.jobs, j.status = .pending →
        (∃ k ∈ q.table.jobs, k.repository = j.repository ∧ k.status = .processing) ∨
          (∃ c ∈ q.calls, c.rings = true) ∨
          ∃ t ∈ q.tasks, t.stage.isOpen = false ∧ ¬ q.table.Stands t.job .processing ∧
            ¬ q.table.Stands t.job .pending :=
  have all : (walk? askedWhileWaiting (fresh oneSlot ())).isSome := by rfl
  have reached := (Run.fresh.walk (Option.some_get all).symm).reached
  ⟨_, _, reached, by rfl, by rfl, (no_ring_is_lost reached (by rfl) (by rfl)).1 (by rfl)⟩

end Queue

end CodeSurvey
