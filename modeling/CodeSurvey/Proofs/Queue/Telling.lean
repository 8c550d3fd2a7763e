-- What a queue tells of its jobs. A change of the table and the telling of its event
-- are two steps, and between them others may change the table and tell. So nothing is
-- lost and nothing is told twice, but an event can be overtaken by those of later
-- changes. The drain and the task of a job keep the order, and so do callers as long
-- as no job is changed before all is told of it.
import CodeSurvey.Proofs.Job.Events
import CodeSurvey.Proofs.Queue.Dispatch

namespace CodeSurvey

/-! ## Events on their way -/

def Signal.told? : Signal → Option JobEvent
  | told event => some event
  | _ => none

/-- The events that a step tells. -/
def tellings (signals : List Signal) : List JobEvent := signals.filterMap Signal.told?

@[simp] theorem tellings_nil : tellings [] = [] := rfl

@[simp] theorem tellings_told (event : JobEvent) : tellings [.told event] = [event] := rfl

@[simp] theorem tellings_handed (job : Job) : tellings [.handed job] = [] := rfl

@[simp] theorem tellings_answered (yes : Bool) : tellings [.answered yes] = [] := rfl

@[simp] theorem tellings_swept (count : Nat) : tellings [.swept count] = [] := rfl

def Call.event? : Call → Option JobEvent
  | telling event _ => some event
  | _ => none

def Drain.event? : Drain → Option JobEvent
  | telling job => some (.started job.id)
  | _ => none

theorem Drain.event?_eq (d : Drain) : d.event? = d.begun?.map (fun job => .started job.id) := by
  cases d <;> rfl

def Stage.event? {σ : Type} : Stage σ → Option JobEvent
  | reporting event _ => some event
  | telling event => some event
  | _ => none

namespace Queue

variable {σ : Type} {settings : QueueSettings} {shared : σ}

/-- The events that callers are about to tell. -/
def untoldByCalls (q : Queue σ) : List JobEvent := q.calls.filterMap Call.event?

/-- The events that the drain and the tasks are about to tell. -/
def untoldByTasks (q : Queue σ) : List JobEvent :=
  q.drain.event?.toList ++ q.tasks.filterMap (·.stage.event?)

/-- The event of the change that a step makes to the table. -/
def cause? (q : Queue σ) (m : Move σ) : Option JobEvent := (q.tableMove? m).bind q.table.event?

/-- The step is one of the drain or of a task. -/
def Move.isInside : Move σ → Bool
  | drainOn _ => true
  | drainOff => true
  | advance _ _ => true
  | _ => false

def Passage.tells (p : Passage σ) : List JobEvent := tellings p.signals

def Passage.causes (p : Passage σ) : List JobEvent := (p.before.cause? p.move).toList

/-! ## One step -/

section Step

variable {q q' : Queue σ} {m : Move σ} {signals : List Signal}

theorem Rung.untold (rung : Rung q q') :
    q'.untoldByCalls = q.untoldByCalls ∧ q'.untoldByTasks = q.untoldByTasks := by
  cases rung with
  | wakes at_ => simp [untoldByCalls, untoldByTasks, at_, Drain.event?]
  | later => exact ⟨rfl, rfl⟩

/-- What a step of one party does to the events that the party is about to tell, and that the other
one is. -/
structure Handles (signals : List Signal) (cause : Option JobEvent) (own own' other other' :
    List JobEvent) : Prop where
  own : (tellings signals ++ own').Perm (own ++ cause.toList)
  other : other' = other

theorem asked_handles (off : q.started = false → q.drain = .off) (h : Asked q m signals q') :
    Handles signals (q.cause? m) q.untoldByCalls q'.untoldByCalls q.untoldByTasks
      q'.untoldByTasks := by
  cases h with
  | started first =>
    refine ⟨by simp [cause?, tableMove?, untoldByCalls], ?_⟩
    simp [untoldByTasks, off first, Drain.event?]
  | @reported id value extra t event done =>
    refine ⟨?_, rfl⟩
    cases event <;>
      simp [cause?, tableMove?, JobTable.event?, done, untoldByCalls, Call.event?]
  | cancelled done =>
    refine ⟨?_, rfl⟩
    simp [cause?, tableMove?, JobTable.event?, done, untoldByCalls, Call.event?]
  | notReported refused | notCancelled refused =>
    refine ⟨?_, rfl⟩
    simp [cause?, tableMove?, JobTable.event?, refused]
  | sweeping =>
    refine ⟨?_, rfl⟩
    simp [cause?, tableMove?, untoldByCalls, Call.event?, List.filterMap_cons]
  | _ =>
    refine ⟨?_, rfl⟩
    simp [cause?, tableMove?, JobTable.event?, untoldByCalls, Call.event?]

theorem proceeded_handles {before after : List Call} {call : Call}
    (place : q.calls = before ++ call :: after) (h : Proceeded q before after call signals q') :
    Handles signals (q.cause? (.proceed before.length)) q.untoldByCalls q'.untoldByCalls
      q.untoldByTasks q'.untoldByTasks := by
  cases h with
  | told | toldToRing =>
    refine ⟨?_, rfl⟩
    simp [cause?, tableMove?, untoldByCalls, place, Call.event?, List.filterMap_cons]
    exact List.perm_middle.symm
  | rings rung =>
    obtain ⟨hcalls, htasks⟩ := rung.untold
    refine ⟨?_, htasks⟩
    rw [hcalls]
    simp [cause?, tableMove?, untoldByCalls, place, Call.event?, List.filterMap_cons]
  | evicts =>
    refine ⟨?_, rfl⟩
    simp [cause?, tableMove?, untoldByCalls, place, Call.event?, List.filterMap_cons,
      JobTable.event?]

theorem drained_handles {now : Instant} (h : Drained q now signals q') :
    Handles signals (q.cause? (.drainOn now)) q.untoldByTasks q'.untoldByTasks q.untoldByCalls
      q'.untoldByCalls := by
  cases h with
  | claims at_ claimed =>
    refine ⟨?_, rfl⟩
    simp [cause?, tableMove?, at_, JobTable.event?, claimed, untoldByTasks, Drain.event?]
    exact (List.perm_append_singleton _ _).symm
  | findsNone at_ none_ =>
    refine ⟨?_, rfl⟩
    simp [cause?, tableMove?, at_, JobTable.event?, none_, untoldByTasks, Drain.event?]
  | dispatches at_ =>
    refine ⟨?_, rfl⟩
    simp [cause?, tableMove?, at_, untoldByTasks, Drain.event?, Stage.event?]
  | stops at_ | goesOn at_ | acquires at_ | hears at_ | waits at_ | wakes at_ =>
    refine ⟨?_, rfl⟩
    simp [cause?, tableMove?, at_, untoldByTasks, Drain.event?]

theorem drainedOff_handles (h : DrainedOff q signals q') :
    Handles signals (q.cause? .drainOff) q.untoldByTasks q'.untoldByTasks q.untoldByCalls
      q'.untoldByCalls := by
  cases h with
  | withoutSlot at_ =>
    refine ⟨?_, rfl⟩
    simp [cause?, tableMove?, at_, untoldByTasks, Drain.event?]
  | withSlot at_ =>
    refine ⟨?_, rfl⟩
    rcases at_ with at_ | at_ | at_ <;>
      simp [cause?, tableMove?, at_, untoldByTasks, Drain.event?]

section Place

variable {before after : List (Task σ)} {id : String} {stage stage' : Stage σ}

theorem untoldByTasks_place (place : q.tasks = before ++ ⟨id, stage⟩ :: after) :
    q.untoldByTasks.Perm (stage.event?.toList ++
      (q.drain.event?.toList ++ (before ++ after).filterMap (·.stage.event?))) := by
  have hsplit : q.untoldByTasks = q.drain.event?.toList ++
      (before.filterMap (·.stage.event?) ++
        (stage.event?.toList ++ after.filterMap (·.stage.event?))) := by
    rw [untoldByTasks, place, List.filterMap_append, List.filterMap_cons]
    cases stage.event? <;> rfl
  rw [hsplit, List.filterMap_append]
  exact (List.perm_append_comm_assoc _ _ _).append_left _ |>.trans
    (List.perm_append_comm_assoc _ _ _)

/-- A task that goes to another stage has at most one event to tell at each of them. -/
theorem handles_restaged {cause : Option JobEvent}
    (place : q.tasks = before ++ ⟨id, stage⟩ :: after)
    (place' : q'.tasks = before ++ ⟨id, stage'⟩ :: after) (hdrain : q'.drain = q.drain)
    (hcalls : q'.calls = q.calls)
    (hstage : tellings signals ++ stage'.event?.toList = stage.event?.toList ++ cause.toList) :
    Handles signals cause q.untoldByTasks q'.untoldByTasks q.untoldByCalls q'.untoldByCalls := by
  have hbefore := untoldByTasks_place place
  have hafter := untoldByTasks_place place'
  rw [hdrain] at hafter
  generalize q.drain.event?.toList ++ (before ++ after).filterMap (·.stage.event?) = others
    at hbefore hafter
  refine ⟨?_, by rw [untoldByCalls, untoldByCalls, hcalls]⟩
  calc
    List.Perm (tellings signals ++ q'.untoldByTasks)
        (tellings signals ++ (stage'.event?.toList ++ others)) := hafter.append_left _
    _ = stage.event?.toList ++ (cause.toList ++ others) := by
      rw [← List.append_assoc, hstage, List.append_assoc]
    List.Perm _ (stage.event?.toList ++ (others ++ cause.toList)) :=
      List.perm_append_comm.append_left _
    _ = (stage.event?.toList ++ others) ++ cause.toList := by rw [List.append_assoc]
    List.Perm _ (q.untoldByTasks ++ cause.toList) := hbefore.symm.append_right _

theorem advanced_handles {now : Instant} (place : q.tasks = before ++ ⟨id, stage⟩ :: after)
    (h : Advanced q before after id now stage signals q') :
    Handles signals (q.cause? (.advance before.length now)) q.untoldByTasks q'.untoldByTasks
      q.untoldByCalls q'.untoldByCalls := by
  cases h with
  | unhandled | handed =>
    refine handles_restaged place rfl rfl rfl ?_
    simp [cause?, tableMove?, place, Stage.event?]
  | worked works =>
    refine handles_restaged place rfl rfl rfl ?_
    cases works with
    | noted done | notedSame done =>
      simp [cause?, tableMove?, place, JobTable.event?, done, Stage.event?]
    | notNoted refused =>
      simp [cause?, tableMove?, place, JobTable.event?, refused, Stage.event?]
    | _ => simp [cause?, tableMove?, place, Stage.event?]
  | finished finish =>
    refine handles_restaged place rfl rfl rfl ?_
    simp [cause?, tableMove?, place, JobTable.event?, finish, Stage.event?]
  | notFinished refused =>
    refine handles_restaged place rfl rfl rfl ?_
    simp [cause?, tableMove?, place, JobTable.event?, refused, Stage.event?]
  | told | released =>
    refine handles_restaged place rfl rfl rfl ?_
    simp [cause?, tableMove?, place, Stage.event?]
  | gone rung =>
    obtain ⟨hcalls, htasks⟩ := rung.untold
    refine ⟨?_, hcalls⟩
    rw [htasks]
    simp [cause?, tableMove?, place, untoldByTasks, Stage.event?]

end Place

/-- What is told in a step was to be told before, or it is told of the change that the step makes;
and what is still to be told stays. -/
theorem step_handles (off : q.started = false → q.drain = .off)
    (made : q.step m = some (signals, q')) :
    if m.isInside then
      Handles signals (q.cause? m) q.untoldByTasks q'.untoldByTasks q.untoldByCalls q'.untoldByCalls
    else
      Handles signals (q.cause? m) q.untoldByCalls q'.untoldByCalls q.untoldByTasks
        q'.untoldByTasks := by
  cases step_moved made with
  | asked hasked =>
    have houtside : m.isInside = false := by cases hasked <;> rfl
    rw [houtside]
    exact asked_handles off hasked
  | proceeded place hproceeded => exact proceeded_handles place hproceeded
  | drained hdrained => exact drained_handles hdrained
  | drainedOff _ hdrained => exact drainedOff_handles hdrained
  | advanced place hadvanced => exact advanced_handles place hadvanced

end Step

/-! ## Who tells of which job -/

/-- A task tells of its own job only. -/
def TellsOwn (q : Queue σ) : Prop := ∀ t ∈ q.tasks, ∀ e, t.stage.event? = some e → e.job = t.job

theorem TellsOwn.step {q q' : Queue σ} {m : Move σ} {signals : List Signal} (own : q.TellsOwn)
    (made : q.step m = some (signals, q')) : q'.TellsOwn := by
  cases step_moved made with
  | asked hasked => cases hasked <;> exact own
  | proceeded _ hproceeded =>
    cases hproceeded with
    | rings rung =>
      unfold TellsOwn
      rw [rung.drain.2.2.1]
      exact own
    | _ => exact own
  | drained hdrained =>
    cases hdrained with
    | dispatches =>
      intro t ht
      rcases List.mem_append.1 ht with ht | ht
      · exact own t ht
      · rw [List.mem_singleton.1 ht]
        intro e he
        cases he
    | _ => exact own
  | drainedOff _ hdrained => cases hdrained <;> exact own
  | @advanced before after id stage now _ _ place hadvanced =>
    have hothers : ∀ t ∈ before ++ after, ∀ e, t.stage.event? = some e → e.job = t.job :=
      fun t ht => own t ((mem_place place).2 (.inr ht))
    -- behind the step, the task at the place is the only one that may have something else to tell
    have hrestaged : ∀ {q'' : Queue σ} {stage' : Stage σ},
        (∀ e, stage'.event? = some e → e.job = id) →
        (q''.withTask before after id stage').TellsOwn := by
      intro q'' stage' hstage t ht e he
      rcases (mem_place rfl).1 ht with rfl | ht
      · exact hstage e he
      · exact hothers t ht e he
    cases hadvanced with
    | worked works =>
      refine hrestaged fun e he => ?_
      cases works with
      | noted done => exact JobTable.report_event (Option.some.inj he ▸ done)
      | _ => cases he
    | finished finish =>
      refine hrestaged fun e he => ?_
      exact JobTable.finish_event (Option.some.inj he ▸ finish)
    | gone rung =>
      unfold TellsOwn
      rw [rung.drain.2.2.1]
      exact hothers
    | _ =>
      refine hrestaged fun e he => ?_
      cases he

theorem Reached.tellsOwn {h : History} {q : Queue σ} (reached : Reached settings shared h q) :
    q.TellsOwn := by
  induction reached with
  | fresh => exact fun t ht => absurd ht List.not_mem_nil
  | step _ made ih => exact ih.step made

/-- Who tells of a job from inside has it. -/
theorem Reached.teller {h : History} {q : Queue σ} (reached : Reached settings shared h q)
    {e : JobEvent} (he : e ∈ q.untoldByTasks) :
    (∃ job, q.drain.begun? = some job ∧ job.id = e.job) ∨
      ∃ t ∈ q.tasks, t.stage.event? = some e ∧ t.job = e.job := by
  rcases List.mem_append.1 he with he | he
  · rw [Drain.event?_eq, Option.mem_toList] at he
    obtain ⟨job, hjob, rfl⟩ := Option.map_eq_some_iff.1 he
    exact .inl ⟨job, hjob, rfl⟩
  · obtain ⟨t, ht, he⟩ := List.mem_filterMap.1 he
    exact .inr ⟨t, ht, he, (reached.tellsOwn t ht e he).symm⟩

/-- Where a task has nothing to tell of its job, nothing is to be told of it from inside. -/
theorem Reached.silent {h : History} {q : Queue σ} (reached : Reached settings shared h q)
    {before after : List (Task σ)} {id : String} {stage : Stage σ}
    (place : q.tasks = before ++ ⟨id, stage⟩ :: after) (hnone : stage.event? = none) :
    ∀ e ∈ q.untoldByTasks, e.job ≠ id := by
  obtain ⟨hdrain, hothers⟩ := reached.accounted.alone place
  intro e he hid
  rcases reached.teller he with ⟨job, hjob, hown⟩ | ⟨t, ht, htell, hown⟩
  · exact hdrain job hjob (hown.trans hid)
  · rcases (mem_place place).1 ht with rfl | ht
    · rw [hnone] at htell
      cases htell
    · exact hothers t ht (hown.trans hid)

/-- When the drain or a task changes a job, neither has anything else to tell of it. -/
theorem Reached.untold_other {h : History} {q : Queue σ} (reached : Reached settings shared h q)
    {m : Move σ} (inside : m.isInside = true) {e : JobEvent} (cause : q.cause? m = some e) :
    ∀ e' ∈ q.untoldByTasks, e'.job ≠ e.job := by
  obtain ⟨c, hmove, hevent⟩ := Option.bind_eq_some_iff.1 cause
  have hplace : ∀ {n : Nat} {stage : Stage σ}, q.tasks[n]? = some ⟨e.job, stage⟩ →
      stage.event? = none → ∀ e' ∈ q.untoldByTasks, e'.job ≠ e.job := by
    intro n stage htask hnone
    obtain ⟨before, after, place, -⟩ := split_at_place htask
    exact reached.silent place hnone
  cases m with
  | drainOn now =>
    simp only [tableMove?] at hmove
    split at hmove
    · rename_i hdrain
      obtain rfl := Option.some.inj hmove
      obtain ⟨claimed, hclaim, rfl⟩ := Option.map_eq_some_iff.1 hevent
      obtain ⟨j, next, rfl⟩ := Option.map_eq_some_iff.1 hclaim
      intro e' he' hsame
      rcases reached.teller he' with ⟨job, hjob, -⟩ | ⟨t, ht, -, hid⟩
      · rw [hdrain] at hjob
        cases hjob
      · have hcharge := job_mem_charges ht
        rw [hid, hsame] at hcharge
        exact reached.accounted.next_not_charged reached next hcharge
    · cases hmove
  | advance n now =>
    simp only [tableMove?] at hmove
    split at hmove
    · rename_i job value extra rest htask
      obtain rfl := Option.some.inj hmove
      obtain ⟨⟨t, event⟩, hreport, rfl⟩ := Option.bind_eq_some_iff.1 hevent
      obtain rfl := JobTable.report_event hreport
      exact hplace htask rfl
    · rename_i job outcome htask
      obtain rfl := Option.some.inj hmove
      obtain ⟨⟨t, event⟩, hfinish, rfl⟩ := Option.map_eq_some_iff.1 hevent
      obtain rfl := JobTable.finish_event hfinish
      exact hplace htask rfl
    · cases hmove
  | _ => cases inside <;> cases hmove

/-! ## Runs -/

/-- The events that are told in a run, in order. -/
def told (run : List (Passage σ)) : List JobEvent := run.flatMap Passage.tells

/-- The events of the changes that are made in a run, in order. -/
def caused (run : List (Passage σ)) : List JobEvent := run.flatMap Passage.causes

/-- The events of changes that were made, and that are still to be told. -/
def untold (q : Queue σ) : List JobEvent := q.untoldByCalls ++ q.untoldByTasks

/-- The steps of the drain and of the tasks. -/
def inside (run : List (Passage σ)) : List (Passage σ) := run.filter (·.move.isInside)

namespace Run

variable {run : List (Passage σ)} {q : Queue σ}

theorem made_of_mem (h : Run settings shared run q) {p : Passage σ} (hp : p ∈ run) :
    ∃ past, Run settings shared past p.before ∧
      p.before.step p.move = some (p.signals, p.after) := by
  obtain ⟨past, later, rfl⟩ := List.append_of_mem hp
  exact ⟨past, h.at_step⟩

theorem handles (h : Run settings shared run q) {p : Passage σ} (hp : p ∈ run) :
    if p.move.isInside then
      Handles p.signals (p.before.cause? p.move) p.before.untoldByTasks p.after.untoldByTasks
        p.before.untoldByCalls p.after.untoldByCalls
    else
      Handles p.signals (p.before.cause? p.move) p.before.untoldByCalls p.after.untoldByCalls
        p.before.untoldByTasks p.after.untoldByTasks := by
  obtain ⟨past, hpast, made⟩ := h.made_of_mem hp
  exact step_handles hpast.reached.accounted.off made

theorem caused_eq (h : Run settings shared run q) : caused run = (history run).events := by
  induction h with
  | fresh => rfl
  | @step run q q' m signals past made ih =>
    have htable := past.reached.table.1
    unfold caused at ih ⊢
    rw [List.flatMap_append, ih, history_append, history_singleton, List.flatMap_singleton]
    unfold Passage.causes cause?
    cases q.tableMove? m with
    | none => simp
    | some c => simp [htable]

/-- Of one thing at most, there is only one order. -/
theorem perm_eq_of_length_le_one {α : Type} {xs ys : List α} (h : xs.Perm ys)
    (hy : ys.length ≤ 1) : xs = ys := by
  cases ys with
  | nil => exact List.perm_nil.1 h
  | cons y ys =>
    obtain rfl := List.length_eq_zero_iff.1 (by simpa using hy)
    exact List.perm_singleton.1 h

section Keeping

variable {tells causes : Passage σ → List JobEvent} (left : Queue σ → List JobEvent)

/-- What each step keeps of the events, a run keeps: none is lost, and none is told twice. -/
theorem told_or_left (h : Run settings shared run q)
    (start : left (Queue.fresh settings shared) = [])
    (step : ∀ p ∈ run, (tells p ++ left p.after).Perm (left p.before ++ causes p)) :
    (run.flatMap tells ++ left q).Perm (run.flatMap causes) := by
  induction h with
  | fresh => simp [start]
  | @step run q q' m signals past made ih =>
    have ih := ih fun p hp => step p (List.mem_append_left _ hp)
    have hlast := step ⟨q, m, signals, q'⟩ (by simp)
    rw [List.flatMap_append, List.flatMap_append, List.flatMap_singleton, List.flatMap_singleton,
      List.append_assoc]
    refine (hlast.append_left _).trans ?_
    rw [← List.append_assoc]
    exact ih.append_right _

/-- Where there is at most one event at a time, they are told in their order. -/
theorem told_in_order (h : Run settings shared run q)
    (start : left (Queue.fresh settings shared) = [])
    (step : ∀ p ∈ run, (tells p ++ left p.after).Perm (left p.before ++ causes p))
    (single : ∀ p ∈ run, (causes p).length ≤ 1)
    (alone : ∀ p ∈ run, causes p ≠ [] → left p.before = []) :
    (left q).length ≤ 1 ∧ run.flatMap tells ++ left q = run.flatMap causes := by
  induction h with
  | fresh => simp [start]
  | @step run q q' m signals past made ih =>
    obtain ⟨hleft, ih⟩ := ih (fun p hp => step p (List.mem_append_left _ hp))
      (fun p hp => single p (List.mem_append_left _ hp))
      fun p hp => alone p (List.mem_append_left _ hp)
    have hlast := step ⟨q, m, signals, q'⟩ (by simp)
    have hsingle := single ⟨q, m, signals, q'⟩ (by simp)
    have halone := alone ⟨q, m, signals, q'⟩ (by simp)
    have hone : (left q ++ causes ⟨q, m, signals, q'⟩).length ≤ 1 := by
      by_cases hquiet : causes ⟨q, m, signals, q'⟩ = []
      · rw [hquiet, List.append_nil]
        exact hleft
      · rw [halone hquiet]
        exact hsingle
    have heq := perm_eq_of_length_le_one hlast hone
    refine ⟨?_, ?_⟩
    · have hlength := congrArg List.length heq
      rw [List.length_append] at hlength
      simp only at hlength
      omega
    · rw [List.flatMap_append, List.flatMap_append, List.flatMap_singleton, List.flatMap_singleton,
        List.append_assoc, heq, ← List.append_assoc, ih]

end Keeping

/-- What a step tells was to be told before, or is told of its own change. -/
theorem handles_untold (h : Run settings shared run q) {p : Passage σ} (hp : p ∈ run) :
    (p.tells ++ p.after.untold).Perm (p.before.untold ++ p.causes) := by
  have hhandles := h.handles hp
  unfold Queue.untold
  split at hhandles
  · obtain ⟨hown, hother⟩ := hhandles
    rw [hother]
    calc
      List.Perm (p.tells ++ (p.before.untoldByCalls ++ p.after.untoldByTasks))
          (p.before.untoldByCalls ++ (p.tells ++ p.after.untoldByTasks)) :=
        List.perm_append_comm_assoc _ _ _
      List.Perm _ (p.before.untoldByCalls ++ (p.before.untoldByTasks ++ p.causes)) :=
        hown.append_left _
      _ = (p.before.untoldByCalls ++ p.before.untoldByTasks) ++ p.causes :=
        (List.append_assoc _ _ _).symm
  · obtain ⟨hown, hother⟩ := hhandles
    rw [hother]
    calc
      List.Perm (p.tells ++ (p.after.untoldByCalls ++ p.before.untoldByTasks))
          ((p.before.untoldByCalls ++ p.causes) ++ p.before.untoldByTasks) := by
        rw [← List.append_assoc]
        exact hown.append_right _
      List.Perm _ ((p.before.untoldByCalls ++ p.before.untoldByTasks) ++ p.causes) := by
        rw [List.append_assoc, List.append_assoc]
        exact List.perm_append_comm.append_left _

/-- All that was caused was told once, or is still to be told. -/
theorem told_perm (h : Run settings shared run q) : (told run ++ q.untold).Perm (caused run) :=
  h.told_or_left Queue.untold rfl fun _ hp => h.handles_untold hp

theorem length_causes (p : Passage σ) (id : String) :
    (p.causes.filter (·.job = id)).length ≤ 1 := by
  refine (List.length_filter_le _ _).trans ?_
  unfold Passage.causes
  cases p.before.cause? p.move <;> simp

/-- Where a job is only changed once all is told of it, all is told in the order of the changes. -/
theorem told_alone (h : Run settings shared run q) {id : String}
    (alone : ∀ p ∈ run, (∃ e ∈ p.causes, e.job = id) → ∀ e ∈ p.before.untold, e.job ≠ id) :
    (told run).filter (·.job = id) ++ q.untold.filter (·.job = id) =
      (caused run).filter (·.job = id) := by
  unfold told caused
  rw [List.filter_flatMap, List.filter_flatMap]
  refine (h.told_in_order (fun q => q.untold.filter (·.job = id)) rfl (fun p hp => ?_)
    (fun p _ => length_causes p id) fun p hp hcause => ?_).2
  · rw [← List.filter_append, ← List.filter_append]
    exact (h.handles_untold hp).filter _
  · obtain ⟨e, he⟩ := List.exists_mem_of_ne_nil _ hcause
    obtain ⟨he, hid⟩ := List.mem_filter.1 he
    refine List.filter_eq_nil_iff.2 fun e' he' => ?_
    simpa using alone p hp ⟨e, he, by simpa using hid⟩ e' he'

/-- What is told or caused in the steps of drain and tasks, of one job. -/
theorem filter_inside (run : List (Passage σ)) (f : Passage σ → List JobEvent) (id : String) :
    ((inside run).flatMap f).filter (·.job = id) =
      run.flatMap (fun p => if p.move.isInside then (f p).filter (·.job = id) else []) := by
  unfold inside
  induction run with
  | nil => rfl
  | cons p run ih =>
    rw [List.flatMap_cons, ← ih]
    cases hmove : p.move.isInside <;> simp [hmove]

/-- The drain and the task of a job tell of it in the order of their changes. -/
theorem told_inside (h : Run settings shared run q) (id : String) :
    (told (inside run)).filter (·.job = id) ++ q.untoldByTasks.filter (·.job = id) =
      (caused (inside run)).filter (·.job = id) := by
  unfold told caused
  rw [filter_inside, filter_inside]
  refine (h.told_in_order (fun q => q.untoldByTasks.filter (·.job = id)) rfl
    (fun p hp => ?_) (fun p _ => ?_) fun p hp hcause => ?_).2
  · have hhandles := h.handles hp
    split at hhandles
    · rename_i hinside
      rw [if_pos hinside, if_pos hinside, ← List.filter_append, ← List.filter_append]
      exact hhandles.own.filter _
    · rename_i hinside
      rw [if_neg hinside, if_neg hinside, List.nil_append, List.append_nil, hhandles.other]
  · split
    · exact length_causes p id
    · exact Nat.zero_le _
  · split at hcause
    · rename_i hinside
      obtain ⟨past, hpast, -⟩ := h.made_of_mem hp
      obtain ⟨e, he⟩ := List.exists_mem_of_ne_nil _ hcause
      obtain ⟨he, hid⟩ := List.mem_filter.1 he
      have hothers := hpast.reached.untold_other hinside (Option.mem_toList.1 he)
      refine List.filter_eq_nil_iff.2 fun e' he' => ?_
      simpa [← of_decide_eq_true hid] using hothers e' he'
    · exact absurd rfl hcause

/-- The start of a job that was begun is an event of the drain. -/
theorem started_of_begun (h : Run settings shared run q) {id : String}
    (begun : (history run).Begun id) : .started id ∈ caused (inside run) := by
  induction h with
  | fresh =>
    obtain ⟨before, now, after, j, hsplit, -⟩ := begun
    simp at hsplit
  | @step run q q' m signals past made ih =>
    have hbefore : (history run).Begun id →
        .started id ∈ caused (inside (run ++ [⟨q, m, signals, q'⟩])) := by
      intro hbegun
      unfold caused inside at ih ⊢
      rw [List.filter_append, List.flatMap_append]
      exact List.mem_append_left _ (ih hbegun)
    rw [history_append, history_singleton] at begun
    cases hmove : q.tableMove? m with
    | none =>
      rw [hmove, Option.toList_none, List.append_nil] at begun
      exact hbefore begun
    | some c =>
      rw [hmove, Option.toList_some] at begun
      rcases History.begun_snoc begun with hbegun | ⟨now, j, rfl, next, rfl⟩
      · exact hbefore hbegun
      · obtain ⟨rfl, -⟩ := claim_of_tableMove? hmove
        rw [← past.reached.table.1] at next
        have hcause : q.cause? (.drainOn now) = some (.started j.id) := by
          simp [cause?, hmove, JobTable.event?, JobTable.claim, next, Job.begun]
        simp [caused, inside, Move.isInside, Passage.causes, hcause]

theorem looking_of_handed {past : List (Passage σ)} {p : Passage σ} {job : Job}
    (h : Run settings shared past p.before)
    (made : p.before.step p.move = some (p.signals, p.after)) (handed : .handed job ∈ p.signals) :
    ⟨job.id, .looking job⟩ ∈ p.before.tasks := by
  have hmem : job ∈ p.signals.filterMap Signal.handed? :=
    List.mem_filterMap.2 ⟨.handed job, handed, rfl⟩
  have hlookup := Option.mem_toList.1 ((handed_of_step made).subset hmem)
  cases hmove : p.move with
  | advance n now =>
    rw [hmove] at hlookup
    obtain ⟨⟨id, stage⟩, htask, hstage⟩ := Option.bind_eq_some_iff.1 hlookup
    cases stage with
    | looking k =>
      obtain rfl := Option.some.inj hstage
      have htask := List.mem_of_getElem? htask
      obtain rfl := h.faithful.named id k (.inr htask)
      exact htask
    | _ => cases hstage
  | _ =>
    rw [hmove] at hlookup
    cases hlookup

/-- A job is handed to its handler once its start was told. -/
theorem started_of_handed {past later : List (Passage σ)} {p : Passage σ} {job : Job}
    (h : Run settings shared (past ++ p :: later) q) (handed : .handed job ∈ p.signals) :
    .started job.id ∈ told past := by
  obtain ⟨hpast, made⟩ := h.at_step
  have reached := hpast.reached
  obtain ⟨before, after, place⟩ := List.append_of_mem (hpast.looking_of_handed made handed)
  have hcharge : job.id ∈ p.before.charges := (mem_charges_iff place).2 (.inr (.inl rfl))
  have hcaused := hpast.started_of_begun (reached.accounted.begun _ hcharge)
  have hsilent : p.before.untoldByTasks.filter (·.job = job.id) = [] :=
    List.filter_eq_nil_iff.2 fun e he => by simpa using reached.silent place rfl e he
  have hinside := hpast.told_inside job.id
  rw [hsilent, List.append_nil] at hinside
  have htold : .started job.id ∈ (told (inside past)).filter (·.job = job.id) := by
    rw [hinside]
    exact List.mem_filter.2 ⟨hcaused, by simp [JobEvent.job]⟩
  obtain ⟨x, hx, hmem⟩ := List.mem_flatMap.1 (List.mem_filter.1 htold).1
  exact List.mem_flatMap.2 ⟨x, List.mem_of_mem_filter hx, hmem⟩

end Run

/-! ## The law -/

/-- Events follow the changes of the table. In every run, whatever order the steps of callers, drain
and tasks come in, the changes of a job have events that go through its life, in the order of the
changes; each event is told once, behind its change, or is still to be told; the drain and the task
of a job keep the order, and the start of a job is told before its handler gets it; and all of its
events are told in that order where it is only changed once all is told of it. -/
theorem events_follow_changes {run : List (Passage σ)} {q : Queue σ}
    (h : Run settings shared run q) :
    (∀ id request, (id, request) ∈ (history run).requests → ∃ status,
      Life id request.repository status ((caused run).filter (·.job = id)) ∧
        (q.table.Stands id status ∨ (history run).Removed id ∧ status.isTerminal = true)) ∧
    (∀ id, id ∉ q.issued → (caused run).filter (·.job = id) = []) ∧
    (told run ++ q.untold).Perm (caused run) ∧
    (∀ id, (told (inside run)).filter (·.job = id) ++ q.untoldByTasks.filter (·.job = id) =
      (caused (inside run)).filter (·.job = id)) ∧
    (∀ past p later job, run = past ++ p :: later → .handed job ∈ p.signals →
      .started job.id ∈ told past) ∧
    ∀ id, (∀ p ∈ run, (∃ e ∈ p.causes, e.job = id) → ∀ e ∈ p.before.untold, e.job ≠ id) →
      (told run).filter (·.job = id) ++ q.untold.filter (·.job = id) =
        (caused run).filter (·.job = id) := by
  obtain ⟨htable, hissued, fresh⟩ := h.reached.table
  refine ⟨fun id request hmem => ?_, fun id hid => ?_, h.told_perm, h.told_inside, ?_,
    fun id => h.told_alone⟩
  · rw [h.caused_eq, htable]
    exact History.life_of_requested fresh hmem
  · rw [h.caused_eq]
    exact History.eventsOf_not_issued fresh (hissued ▸ hid)
  · rintro past p later job rfl
    exact h.started_of_handed

/-- The events stand in the order of a life in which a job is begun and ends. -/
def InOrder (id : String) (events : List JobEvent) : Prop :=
  ∃ repository values last, Rising values ∧
    (last = .completed id ∨ ∃ error, last = .failed id error) ∧
    events <+: workEvents id repository values ++ [last]

/-- A job is begun, reports and ends, and all is told of each change before the next one. -/
def toldAtOnce : List (Move Unit) :=
  [.register "work" (fun _ s => (.report 5 none (.finish .succeeded), s)), .start,
    .enqueue "a" ⟨"work", "r", .null⟩ ⟨0⟩, .proceed 0] ++
  List.replicate 4 (.drainOn ⟨1⟩) ++ List.replicate 6 (.advance 0 ⟨2⟩)

/-- All is told of a job before it is told that the job was asked for, and a report comes last. -/
def toldLate : List (Move Unit) :=
  [.register "work" (fun _ s => (.finish .succeeded, s)), .start,
    .enqueue "a" ⟨"work", "r", .null⟩ ⟨0⟩] ++
  List.replicate 4 (.drainOn ⟨1⟩) ++ [.advance 0 ⟨2⟩, .report "a" 7 none] ++
  List.replicate 4 (.advance 0 ⟨2⟩) ++ [.proceed 0, .proceed 1]

/-- A job is called off. -/
def calledOff : List (Move Unit) :=
  [.enqueue "a" ⟨"work", "r", .null⟩ ⟨0⟩, .proceed 0, .cancel "a" ⟨1⟩, .proceed 1]

theorem events_follow_changes_of_one :
    ∃ run q, Run oneSlot () run q ∧
      told run = [.enqueued "a" "r", .started "a", .progress "a" 5, .completed "a"] ∧
      (told run ++ q.untold).Perm (caused run) ∧
      (told run).filter (·.job = "a") ++ q.untold.filter (·.job = "a") =
        (caused run).filter (·.job = "a") := by
  have all : (walk? toldAtOnce (fresh oneSlot ())).isSome := by rfl
  have h := Run.fresh.walk (Option.some_get all).symm
  obtain ⟨-, -, hperm, -, -, halone⟩ := events_follow_changes h
  exact ⟨_, _, h, by rfl, hperm, halone "a" (by decide +kernel)⟩

/-- The start of a job is told before it is told that the job was asked for, and a report behind its
end; and a job that is called off never starts. -/
theorem told_out_of_order :
    (∃ run q, Run oneSlot () run q ∧
      told run = [.started "a", .completed "a", .enqueued "a" "r", .progress "a" 7] ∧
      ¬ InOrder "a" ((told run).filter (·.job = "a"))) ∧
    ∃ run q, Run oneSlot () run q ∧
      told run = [.enqueued "a" "r", .failed "a" Failure.cancelled.message] ∧
      ¬ InOrder "a" ((told run).filter (·.job = "a")) := by
  have late : (walk? toldLate (fresh oneSlot ())).isSome := by rfl
  have off : (walk? calledOff (fresh oneSlot ())).isSome := by rfl
  refine ⟨⟨_, _, Run.fresh.walk (Option.some_get late).symm, by rfl, ?_⟩,
    ⟨_, _, Run.fresh.walk (Option.some_get off).symm, by rfl, ?_⟩⟩
  · rintro ⟨repository, values, last, -, -, hprefix⟩
    have hfirst : JobEvent.started "a" = .enqueued "a" repository :=
      (List.cons_prefix_cons.1 hprefix).1
    cases hfirst
  · rintro ⟨repository, values, last, -, -, hprefix⟩
    have hsecond : JobEvent.failed "a" Failure.cancelled.message = .started "a" :=
      (List.cons_prefix_cons.1 (List.cons_prefix_cons.1 hprefix).2).1
    cases hsecond

end Queue

end CodeSurvey
