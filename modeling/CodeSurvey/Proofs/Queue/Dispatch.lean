-- What becomes of a job that was begun. Its task looks once for a handler, among
-- those that are registered at that moment, and what the handler makes of the job
-- as it was begun is how the job ends. Between these steps handlers change, jobs are
-- called off, old ones are removed and others end; none of it reaches the job.
import CodeSurvey.Proofs.Queue.Slots

namespace CodeSurvey

/-- The record of a job says that its work ended so. -/
def Outcome.Shows (o : Outcome) (j : Job) : Prop :=
  match o with
  | .succeeded => j.status = .completed ∧ j.error = none
  | .failed f => j.status = .failed ∧ j.error = some f.message
  | .panicked (some text) => j.status = .failed ∧ j.error = some ("Task error: " ++ text)
  | .panicked none => j.status = .failed ∧ j.error = some "Task error: handler panicked"

theorem Outcome.shows_ended {j : Job} (o : Outcome) (now : Instant) (h : j.error = none) :
    o.Shows (j.ended now o) := by
  cases o with
  | panicked text => cases text <;> exact ⟨rfl, rfl⟩
  | succeeded => exact ⟨rfl, h⟩
  | failed f => exact ⟨rfl, rfl⟩

/-- The job of a task that has not looked for a handler. -/
def Stage.looking? {σ : Type} : Stage σ → Option Job
  | looking job => some job
  | _ => none

/-- The job that was handed to a handler, if that is what shows. -/
def Signal.handed? : Signal → Option Job
  | handed job => some job
  | _ => none

namespace Queue

variable {σ : Type}

/-! ## Handlers -/

/-- The handler that a step registers for a type of jobs. -/
def Move.handler? (type : String) : Move σ → Option (Handler σ)
  | register t handler => if t = type then some handler else none
  | _ => none

/-- The handler that was registered last for a type in a run. -/
def registered? (run : List (Passage σ)) (type : String) : Option (Handler σ) :=
  (run.filterMap (·.move.handler? type)).getLast?

theorem Rung.handlers {q q' : Queue σ} (rung : Rung q q') : q'.handlers = q.handlers := by
  cases rung <;> rfl

theorem step_handler? {q q' : Queue σ} {m : Move σ} {signals : List Signal}
    (made : q.step m = some (signals, q')) (type : String) :
    q'.handler? type = (m.handler? type).or (q.handler? type) := by
  have hsame : ∀ {q'' : Queue σ}, q''.handlers = q.handlers → q''.handler? type = q.handler? type :=
    fun h => by rw [handler?, handler?, h]
  cases step_moved made with
  | asked hasked =>
    cases hasked with
    | @registered t handler =>
      unfold handler? Move.handler?
      by_cases ht : t = type
      · simp [ht]
      · simp [ht]
    | _ => rfl
  | proceeded _ hproceeded =>
    cases hproceeded with
    | rings hrung => exact hsame hrung.handlers
    | _ => rfl
  | drained hdrained => cases hdrained <;> rfl
  | drainedOff _ hdrained => cases hdrained <;> rfl
  | advanced _ hadvanced =>
    cases hadvanced with
    | gone hrung => exact hsame hrung.handlers
    | _ => rfl

theorem Run.handler? {settings : QueueSettings} {shared : σ} {run : List (Passage σ)} {q : Queue σ}
    (h : Run settings shared run q) (type : String) : q.handler? type = registered? run type := by
  induction h with
  | fresh => rfl
  | @step run q q' m signals _ made ih =>
    rw [step_handler? made, ih, registered?, registered?, List.filterMap_append]
    cases hm : m.handler? type <;> simp [hm]

/-! ## Looking for a handler -/

/-- The job for which a task looks for a handler in a step. -/
def lookup? (q : Queue σ) : Move σ → Option Job
  | .advance n _ => q.tasks[n]?.bind (·.stage.looking?)
  | _ => none

def Passage.lookup? (p : Passage σ) : Option Job := p.before.lookup? p.move

/-- How a job will end with a handler, or without one. -/
def outcomeWith (handler : Option (Handler σ)) (job : Job) (shared : σ) : Outcome :=
  match handler with
  | none => .failed (.noHandler job.type)
  | some handle => (handle job shared).1.outcome

/-- In the run a task looked for the handler of the job, and so the job will end. -/
def Fated (run : List (Passage σ)) (job : Job) (o : Outcome) : Prop :=
  ∃ past p later, run = past ++ p :: later ∧ p.lookup? = some job ∧
    o = outcomeWith (registered? past job.type) job p.before.shared

/-- The jobs for which a handler was looked for, in order. -/
def lookedUp (run : List (Passage σ)) : List Job := run.filterMap Passage.lookup?

@[simp] theorem lookedUp_append (run more : List (Passage σ)) :
    lookedUp (run ++ more) = lookedUp run ++ lookedUp more := by
  simp [lookedUp]

@[simp] theorem lookedUp_singleton (p : Passage σ) : lookedUp [p] = p.lookup?.toList := by
  unfold lookedUp
  cases h : p.lookup? <;> simp [h]

theorem mem_lookedUp {past later : List (Passage σ)} {p : Passage σ} {job : Job}
    (hlookup : p.lookup? = some job) : job ∈ lookedUp (past ++ p :: later) :=
  List.mem_filterMap.2 ⟨p, by simp, hlookup⟩

theorem Fated.append {run : List (Passage σ)} {job : Job} {o : Outcome} (h : Fated run job o)
    (more : List (Passage σ)) : Fated (run ++ more) job o := by
  obtain ⟨past, p, later, rfl, hlookup, ho⟩ := h
  exact ⟨past, p, later ++ more, by simp, hlookup, ho⟩

/-- The job as it was begun: at work without progress, and with the data that it was asked for
with. -/
structure JustBegun (h : History) (job : Job) : Prop where
  status : job.status = .processing
  progress : job.progress = 0
  asked : ∃ request, (job.id, request) ∈ h.requests ∧ job.type = request.type ∧
    job.repository = request.repository ∧ job.data = request.payload

theorem JustBegun.append {h : History} {job : Job} (begun : JustBegun h job) (g : History) :
    JustBegun (h ++ g) job := by
  obtain ⟨hstatus, hprogress, request, hmem, hsame⟩ := begun
  refine ⟨hstatus, hprogress, request, ?_, hsame⟩
  rw [History.requests_append]
  exact List.mem_append_left _ hmem

/-- The drain has begun the job, or its task has not looked for a handler yet. -/
def Unlooked (q : Queue σ) (id : String) (job : Job) : Prop :=
  q.drain.begun? = some job ∧ job.id = id ∨ ⟨id, .looking job⟩ ∈ q.tasks

theorem Unlooked.mem_charges {q : Queue σ} {job : Job} (h : q.Unlooked job.id job) :
    job.id ∈ q.charges := by
  rcases h with ⟨hdrain, -⟩ | htask
  · simp [charges, hdrain]
  · exact job_mem_charges htask

/-! ## What is kept of the jobs that were begun -/

/-- What a run and its queue know of the jobs that were begun. -/
structure Faithful (run : List (Passage σ)) (q : Queue σ) : Prop where
  named : ∀ id job, q.Unlooked id job → job.id = id
  begun : ∀ id job, q.Unlooked id job → JustBegun (history run) job
  unlooked : ∀ id job, q.Unlooked id job → id ∉ (lookedUp run).map (·.id)
  once : ((lookedUp run).map (·.id)).Nodup
  looked : ∀ job ∈ lookedUp run, (history run).Begun job.id
  fated : ∀ t ∈ q.tasks, ∀ o, t.stage.fate? = some o → ∃ job, job.id = t.job ∧ Fated run job o
  ended : ∀ j ∈ q.table.jobs, j.status.isTerminal = true → (history run).Withdrawn j.id ∨
    ∃ job o, job.id = j.id ∧ Fated run job o ∧ o.Shows j

theorem faithful_fresh (settings : QueueSettings) (shared : σ) :
    Faithful [] (fresh settings shared) where
  named := by simp [Unlooked, fresh, Drain.begun?]
  begun := by simp [Unlooked, fresh, Drain.begun?]
  unlooked := by simp [lookedUp]
  once := List.nodup_nil
  looked := by simp [lookedUp]
  fated := by simp [fresh]
  ended := by simp [fresh, JobTable.empty]

/-- Only a task whose handler is done ends a job. -/
theorem advance_of_finish {q : Queue σ} {m : Move σ} {id : String} {o : Outcome} {now : Instant}
    (h : q.tableMove? m = some (.finish id o now)) :
    ∃ n, m = .advance n now ∧ q.tasks[n]? = some ⟨id, .ended o⟩ := by
  cases m with
  | advance n t =>
    simp only [tableMove?] at h
    split at h
    · cases h
    · rename_i htask
      cases h
      exact ⟨n, rfl, htask⟩
    · cases h
  | proceed n =>
    simp only [tableMove?] at h
    split at h <;> cases h
  | drainOn t =>
    simp only [tableMove?] at h
    split at h <;> cases h
  | _ => cases h

/-- A step that ends a job leaves the state that the work shares. -/
theorem shared_of_finish {q q' : Queue σ} {m : Move σ} {signals : List Signal} {id : String}
    {o : Outcome} {now : Instant} (made : q.step m = some (signals, q'))
    (h : q.tableMove? m = some (.finish id o now)) : q'.shared = q.shared := by
  obtain ⟨n, rfl, htask⟩ := advance_of_finish h
  simp only [step, advance, htask] at made
  split at made
  all_goals
    obtain ⟨-, rfl⟩ := Prod.mk.inj (Option.some.inj made)
    rfl

namespace Faithful

variable {settings : QueueSettings} {shared : σ} {run : List (Passage σ)} {q q' : Queue σ}
  {m : Move σ} {signals : List Signal}

/-- Each job that has ended was called off, or ended as its handler had it, whatever the step
is. -/
theorem ended_step (fa : Faithful run q) (h : Run settings shared run q)
    (made : q.step m = some (signals, q')) {j : Job} (hj : j ∈ q'.table.jobs)
    (hs : j.status.isTerminal = true) :
    (history (run ++ [⟨q, m, signals, q'⟩])).Withdrawn j.id ∨
      ∃ job o, job.id = j.id ∧ Fated (run ++ [⟨q, m, signals, q'⟩]) job o ∧ o.Shows j := by
  obtain ⟨htable, -, fresh⟩ := h.reached.table
  have hn := h.reached.ids_nodup
  have hold : j ∈ q.table.jobs → (history (run ++ [⟨q, m, signals, q'⟩])).Withdrawn j.id ∨
      ∃ job o, job.id = j.id ∧ Fated (run ++ [⟨q, m, signals, q'⟩]) job o ∧ o.Shows j := by
    intro hj
    rcases fa.ended j hj hs with ⟨before, now, after, heq, hsome⟩ | ⟨job, o, hid, hfated, hshows⟩
    · exact .inl ⟨before, now, after ++ (q.tableMove? m).toList, by simp [heq], hsome⟩
    · exact .inr ⟨job, o, hid, hfated.append _, hshows⟩
  rw [(step_table made).1, tableAfter] at hj
  cases hm : q.tableMove? m with
  | none =>
    rw [hm] at hj
    exact hold hj
  | some c =>
    rw [hm] at hj
    rcases JobTable.terminal_of_play hn hj hs with hj | ⟨now, rfl, hdone⟩ |
      ⟨i, hi, o, now, rfl, hproc, hended⟩
    · exact hold hj
    · refine .inl ?_
      rw [history_append, history_singleton, hm, Option.toList_some, History.withdrawn_snoc]
      exact .inr ⟨now, rfl, htable ▸ hdone⟩
    · obtain ⟨n, -, htask⟩ := advance_of_finish hm
      obtain ⟨job, hid, hfated⟩ := fa.fated _ (List.mem_of_getElem? htask) o rfl
      have herror : i.error = none :=
        ((History.lawful _ fresh i (htable ▸ hi)).processing hproc).2.2.1
      exact .inr ⟨job, o, hid, hfated.append _, hended ▸ Outcome.shows_ended o now herror⟩

/-- What is known is kept by a step, when each task that looks had not looked before, whoever has
not looked behind it had not before it either or has a job that was begun just now, and the job of a
task will end as it would have, or as the task has found out. -/
theorem grown (fa : Faithful run q) (h : Run settings shared run q)
    (made : q.step m = some (signals, q'))
    (hlooks : ∀ job, q.lookup? m = some job → q.Unlooked job.id job)
    (hunlooked : ∀ id job, q'.Unlooked id job →
      (q.Unlooked id job ∨
        job.id = id ∧ JustBegun (history run) job ∧ id ∉ (lookedUp run).map (·.id)) ∧
      ∀ k, q.lookup? m = some k → id ≠ k.id)
    (hfates : ∀ t ∈ q'.tasks, ∀ o, t.stage.fate? = some o →
      (∃ t' ∈ q.tasks, t'.job = t.job ∧ t'.stage.fate? = some o) ∨
        ∃ job, q.lookup? m = some job ∧ job.id = t.job ∧
          o = outcomeWith (q.handler? job.type) job q.shared) :
    Faithful (run ++ [⟨q, m, signals, q'⟩]) q' := by
  have hlookedUp : lookedUp (run ++ [⟨q, m, signals, q'⟩]) =
      lookedUp run ++ (q.lookup? m).toList := by
    rw [lookedUp_append, lookedUp_singleton]
    rfl
  have hopen : ∀ id job, q'.Unlooked id job →
      job.id = id ∧ JustBegun (history run) job ∧ id ∉ (lookedUp run).map (·.id) := by
    intro id job hu
    rcases (hunlooked id job hu).1 with hold | hnew
    · exact ⟨fa.named id job hold, fa.begun id job hold, fa.unlooked id job hold⟩
    · exact hnew
  refine ⟨?_, ?_, ?_, ?_, ?_, ?_, fun j hj hs => fa.ended_step h made hj hs⟩
  · exact fun id job hu => (hopen id job hu).1
  · intro id job hu
    rw [history_append]
    exact (hopen id job hu).2.1.append _
  · intro id job hu
    rw [hlookedUp, List.map_append, List.mem_append]
    rintro (hold | hnow)
    · exact (hopen id job hu).2.2 hold
    · obtain ⟨k, hk, hid⟩ := List.mem_map.1 hnow
      exact (hunlooked id job hu).2 k (Option.mem_toList.1 hk) hid.symm
  · rw [hlookedUp, List.map_append, List.nodup_append]
    refine ⟨fa.once, ?_, ?_⟩
    · cases q.lookup? m <;> simp
    · rintro id hold _ hnow rfl
      obtain ⟨k, hk, rfl⟩ := List.mem_map.1 hnow
      exact fa.unlooked k.id k (hlooks k (Option.mem_toList.1 hk)) hold
  · intro k hk
    rw [history_append]
    rw [hlookedUp, List.mem_append] at hk
    rcases hk with hk | hk
    · exact (fa.looked k hk).append _
    · have hcharge := (hlooks k (Option.mem_toList.1 hk)).mem_charges
      exact (h.reached.accounted.begun k.id hcharge).append _
  · intro t ht o ho
    rcases hfates t ht o ho with ⟨t', ht', hid, ho'⟩ | ⟨job, hlookup, hid, rfl⟩
    · obtain ⟨job, hjob, hfated⟩ := fa.fated t' ht' o ho'
      exact ⟨job, hjob.trans hid, hfated.append _⟩
    · refine ⟨job, hid, run, ⟨q, m, signals, q'⟩, [], rfl, hlookup, ?_⟩
      rw [← h.handler?]

/-- A step in which no task looks for a handler keeps what is known, when neither the drain nor a
task has a job behind it that it had not before. -/
theorem kept (fa : Faithful run q) (h : Run settings shared run q)
    (made : q.step m = some (signals, q')) (hlookup : q.lookup? m = none)
    (hunlooked : ∀ id job, q'.Unlooked id job → q.Unlooked id job)
    (hfates : ∀ t ∈ q'.tasks, ∀ o, t.stage.fate? = some o →
      ∃ t' ∈ q.tasks, t'.job = t.job ∧ t'.stage.fate? = some o) :
    Faithful (run ++ [⟨q, m, signals, q'⟩]) q' := by
  refine fa.grown h made (by simp [hlookup]) ?_ fun t ht o ho => .inl (hfates t ht o ho)
  exact fun id job hu => ⟨.inl (hunlooked id job hu), by simp [hlookup]⟩

/-- So does one that leaves the tasks and the job behind the drain. -/
theorem untouched (fa : Faithful run q) (h : Run settings shared run q)
    (made : q.step m = some (signals, q')) (hlookup : q.lookup? m = none)
    (hdrain : q'.drain.begun? = q.drain.begun?) (htasks : q'.tasks = q.tasks) :
    Faithful (run ++ [⟨q, m, signals, q'⟩]) q' := by
  refine fa.kept h made hlookup ?_ ?_
  · intro id job hu
    rw [Unlooked, hdrain, htasks] at hu
    exact hu
  · rw [htasks]
    exact fun t ht o ho => ⟨t, ht, rfl, ho⟩

theorem asked (fa : Faithful run q) (h : Run settings shared run q)
    (made : q.step m = some (signals, q')) (hasked : Asked q m signals q') :
    Faithful (run ++ [⟨q, m, signals, q'⟩]) q' := by
  cases hasked with
  | started first =>
    refine fa.untouched h made rfl ?_ rfl
    rw [h.reached.accounted.off first]
    rfl
  | _ => exact fa.untouched h made rfl rfl rfl

theorem proceeded {n : Nat} {before after : List Call} {call : Call} (fa : Faithful run q)
    (h : Run settings shared run q) (made : q.step (.proceed n) = some (signals, q'))
    (hproceeded : Proceeded q before after call signals q') :
    Faithful (run ++ [⟨q, .proceed n, signals, q'⟩]) q' := by
  cases hproceeded with
  | rings hrung =>
    obtain ⟨-, -, htasks, hbegun, -⟩ := hrung.drain
    exact fa.untouched h made rfl hbegun htasks
  | _ => exact fa.untouched h made rfl rfl rfl

/-- The drain begins the job that is next. -/
theorem claimed {now : Instant} {job : Job} {t : JobTable} (fa : Faithful run q)
    (h : Run settings shared run q) (made : q.step (.drainOn now) = some (signals, q'))
    (hclaim : q.table.claim now = some (job, t)) (there : q'.drain = .telling job)
    (htasks : q'.tasks = q.tasks) :
    Faithful (run ++ [⟨q, .drainOn now, signals, q'⟩]) q' := by
  obtain ⟨htable, -, fresh⟩ := h.reached.table
  obtain ⟨j, hnext, hj⟩ := Option.map_eq_some_iff.1 hclaim
  obtain ⟨rfl, -⟩ := Prod.mk.inj hj
  obtain ⟨hmem, hpending, -⟩ := JobTable.next?_eq_some (htable ▸ hnext)
  refine fa.grown h made (by simp [lookup?]) ?_ ?_
  · intro id k hu
    refine ⟨?_, by simp [lookup?]⟩
    rcases hu with ⟨hk, rfl⟩ | hk
    · rw [there] at hk
      obtain rfl := Option.some.inj hk
      refine .inr ⟨rfl, ⟨rfl, rfl, ?_⟩, ?_⟩
      · obtain ⟨request, asked, hasked, heq⟩ := History.asked_of_pending _ fresh j hmem hpending
        refine ⟨request, hasked, ?_⟩
        rw [heq]
        exact ⟨rfl, rfl, rfl⟩
      · -- a job for which a handler was looked for does not wait
        intro hin
        obtain ⟨k, hk, hid⟩ := List.mem_map.1 hin
        exact (History.away_of_begun fresh (fa.looked k hk)).begun ⟨j, hmem, hid.symm, hpending⟩
    · exact .inl (.inr (htasks ▸ hk))
  · rw [htasks]
    exact fun t ht o ho => .inl ⟨t, ht, rfl, ho⟩

theorem drained {now : Instant} (fa : Faithful run q) (h : Run settings shared run q)
    (made : q.step (.drainOn now) = some (signals, q')) (hdrained : Drained q now signals q') :
    Faithful (run ++ [⟨q, .drainOn now, signals, q'⟩]) q' := by
  cases hdrained with
  | claims _ claimed => exact fa.claimed h made claimed rfl rfl
  | @dispatches job at_ =>
    refine fa.kept h made rfl ?_ ?_
    · rintro id j (⟨hj, -⟩ | hj)
      · cases hj
      · rw [List.mem_append, List.mem_singleton] at hj
        rcases hj with hj | hj
        · exact .inr hj
        · obtain ⟨rfl, hstage⟩ := Task.mk.inj hj
          obtain rfl := Stage.looking.inj hstage
          exact .inl ⟨by rw [at_]; rfl, rfl⟩
    · intro t ht o ho
      rw [List.mem_append, List.mem_singleton] at ht
      rcases ht with ht | rfl
      · exact ⟨t, ht, rfl, ho⟩
      · cases ho
  | stops at_ | goesOn at_ | acquires at_ | findsNone at_ | hears at_ | waits at_ | wakes at_ =>
    refine fa.untouched h made rfl ?_ rfl
    rw [at_]
    rfl

theorem drainedOff (fa : Faithful run q) (h : Run settings shared run q)
    (made : q.step .drainOff = some (signals, q')) (hdrained : DrainedOff q signals q') :
    Faithful (run ++ [⟨q, .drainOff, signals, q'⟩]) q' := by
  cases hdrained with
  | withoutSlot at_ =>
    refine fa.untouched h made rfl ?_ rfl
    rw [at_]
    rfl
  | withSlot at_ =>
    refine fa.untouched h made rfl ?_ rfl
    rcases at_ with at_ | at_ | at_
    all_goals
      rw [at_]
      rfl

/-- A task that looks for no handler goes to another stage, and how its job will end stays as it
is. -/
theorem restaged {before after : List (Task σ)} {id : String} {stage stage' : Stage σ}
    (fa : Faithful run q) (h : Run settings shared run q)
    (made : q.step m = some (signals, q')) (hlookup : q.lookup? m = none)
    (place : q.tasks = before ++ ⟨id, stage⟩ :: after)
    (place' : q'.tasks = before ++ ⟨id, stage'⟩ :: after) (hdrain : q'.drain = q.drain)
    (hlooks : stage'.looking? = none)
    (hfate : ∀ o, stage'.fate? = some o → stage.fate? = some o) :
    Faithful (run ++ [⟨q, m, signals, q'⟩]) q' := by
  refine fa.kept h made hlookup ?_ ?_
  · rintro i job (⟨hjob, hid⟩ | ht)
    · exact .inl ⟨hdrain ▸ hjob, hid⟩
    · rcases (mem_place place').1 ht with ht | ht
      · obtain ⟨-, rfl⟩ := Task.mk.inj ht
        cases hlooks
      · exact .inr ((mem_place place).2 (.inr ht))
  · intro t ht o ho
    rcases (mem_place place').1 ht with rfl | ht
    · exact ⟨_, (mem_place place).2 (.inl rfl), rfl, hfate o ho⟩
    · exact ⟨t, (mem_place place).2 (.inr ht), rfl, ho⟩

/-- A task looks for the handler of its job. -/
theorem looked_step {before after : List (Task σ)} {id : String} {job : Job} {stage : Stage σ}
    (fa : Faithful run q) (h : Run settings shared run q)
    (made : q.step m = some (signals, q')) (hlookup : q.lookup? m = some job)
    (place : q.tasks = before ++ ⟨id, .looking job⟩ :: after)
    (place' : q'.tasks = before ++ ⟨id, stage⟩ :: after) (hdrain : q'.drain = q.drain)
    (hlooks : stage.looking? = none)
    (hfate : stage.fate? = some (outcomeWith (q.handler? job.type) job q.shared)) :
    Faithful (run ++ [⟨q, m, signals, q'⟩]) q' := by
  have hmine : q.Unlooked id job := .inr ((mem_place place).2 (.inl rfl))
  obtain rfl := fa.named id job hmine
  obtain ⟨hdrainOther, hother⟩ := h.reached.accounted.alone place
  refine fa.grown h made ?_ ?_ ?_
  · intro k hk
    obtain rfl := Option.some.inj (hlookup.symm.trans hk)
    exact hmine
  · -- whoever has not looked yet has not looked before, and has another job
    intro i j hu
    rw [hlookup]
    rcases hu with ⟨hj, rfl⟩ | ht
    · rw [hdrain] at hj
      exact ⟨.inl (.inl ⟨hj, rfl⟩), fun k hk => Option.some.inj hk ▸ hdrainOther j hj⟩
    · rcases (mem_place place').1 ht with ht | ht
      · obtain ⟨-, rfl⟩ := Task.mk.inj ht
        cases hlooks
      · exact ⟨.inl (.inr ((mem_place place).2 (.inr ht))),
          fun k hk => Option.some.inj hk ▸ hother _ ht⟩
  · intro t ht o ho
    rcases (mem_place place').1 ht with rfl | ht
    · exact .inr ⟨job, hlookup, rfl, Option.some.inj (ho.symm.trans hfate)⟩
    · exact .inl ⟨t, (mem_place place).2 (.inr ht), rfl, ho⟩

theorem advanced {before after : List (Task σ)} {id : String} {stage : Stage σ} {now : Instant}
    (fa : Faithful run q) (h : Run settings shared run q)
    (made : q.step (.advance before.length now) = some (signals, q'))
    (place : q.tasks = before ++ ⟨id, stage⟩ :: after)
    (hadvanced : Advanced q before after id now stage signals q') :
    Faithful (run ++ [⟨q, .advance before.length now, signals, q'⟩]) q' := by
  have hlookup : q.lookup? (.advance before.length now) = stage.looking? := by
    simp [lookup?, place]
  cases hadvanced with
  | unhandled none_ =>
    refine fa.looked_step h made hlookup place rfl rfl rfl ?_
    simp [Stage.fate?, outcomeWith, none_]
  | handed found =>
    refine fa.looked_step h made hlookup place rfl rfl rfl ?_
    simp [Stage.fate?, outcomeWith, found]
  | worked works =>
    obtain ⟨hexec, o, hfate, hfate'⟩ := works.going
    refine fa.restaged h made (hlookup.trans ?_) place rfl rfl ?_ ?_
    · cases works <;> rfl
    · cases works <;> rfl
    · intro o' ho
      rw [hfate, ← ho, hfate']
  | finished | notFinished | told | released =>
    exact fa.restaged h made hlookup place rfl rfl rfl (by simp [Stage.fate?])
  | gone hrung =>
    obtain ⟨-, -, htasks, hbegun, -⟩ := hrung.drain
    have hsub : ∀ t ∈ q'.tasks, t ∈ q.tasks := by
      rw [htasks, place]
      intro t ht
      rw [List.mem_append] at ht ⊢
      exact ht.imp_right (List.mem_cons_of_mem _)
    refine fa.kept h made hlookup ?_ fun t ht o ho => ⟨t, hsub t ht, rfl, ho⟩
    rintro i job (⟨hjob, hid⟩ | ht)
    · exact .inl ⟨hbegun ▸ hjob, hid⟩
    · exact .inr (hsub _ ht)

theorem step (fa : Faithful run q) (h : Run settings shared run q)
    (made : q.step m = some (signals, q')) : Faithful (run ++ [⟨q, m, signals, q'⟩]) q' := by
  cases step_moved made with
  | asked hasked => exact fa.asked h made hasked
  | proceeded _ hproceeded => exact fa.proceeded h made hproceeded
  | drained hdrained => exact fa.drained h made hdrained
  | drainedOff _ hdrained => exact fa.drainedOff h made hdrained
  | advanced place hadvanced => exact fa.advanced h made place hadvanced

end Faithful

theorem Run.faithful {settings : QueueSettings} {shared : σ} {run : List (Passage σ)} {q : Queue σ}
    (h : Run settings shared run q) : Faithful run q := by
  induction h with
  | fresh => exact faithful_fresh settings shared
  | step past made ih => exact ih.step past made

/-- A job for which a handler was looked for does not wait, now or later. -/
theorem Run.away_of_looked {settings : QueueSettings} {shared : σ} {run : List (Passage σ)}
    {q : Queue σ} (h : Run settings shared run q) {job : Job} (looked : job ∈ lookedUp run) :
    (history run).Away job.id :=
  History.away_of_begun h.reached.table.2.2 (h.faithful.looked job looked)

/-! ## The step in which a task looks -/

/-- What the step does for the job, with the handler that the task finds. -/
def Passage.Hands (p : Passage σ) (job : Job) : Option (Handler σ) → Prop
  | none => p.signals = [] ∧ p.after.shared = p.before.shared ∧
      ⟨job.id, .ended (.failed (.noHandler job.type))⟩ ∈ p.after.tasks
  | some handle => p.signals = [.handed job] ∧ p.after.shared = (handle job p.before.shared).2 ∧
      ⟨job.id, .running (handle job p.before.shared).1⟩ ∈ p.after.tasks

theorem hands_of_lookup {settings : QueueSettings} {shared : σ} {run : List (Passage σ)}
    {p : Passage σ} {job : Job} (h : Run settings shared run p.before)
    (made : p.before.step p.move = some (p.signals, p.after)) (hlookup : p.lookup? = some job) :
    p.before.Unlooked job.id job ∧ p.Hands job (registered? run job.type) := by
  obtain ⟨q, m, signals, q'⟩ := p
  rw [← h.handler? job.type]
  have fa := h.faithful
  unfold Passage.lookup? at hlookup
  dsimp only at h made hlookup fa ⊢
  cases step_moved made with
  | asked hasked => cases hasked <;> cases hlookup
  | proceeded | drained | drainedOff => cases hlookup
  | @advanced before after id stage now _ _ place hadvanced =>
    have hstage : stage.looking? = some job := by simpa [lookup?, place] using hlookup
    cases stage with
    | looking k =>
      obtain rfl := Option.some.inj hstage
      have hmine : q.Unlooked id k := .inr (by simp [place])
      obtain rfl := fa.named id k hmine
      refine ⟨hmine, ?_⟩
      cases hadvanced with
      | unhandled none_ =>
        rw [none_]
        exact ⟨rfl, rfl, by simp [withTask]⟩
      | handed found =>
        rw [found]
        exact ⟨rfl, rfl, by simp [withTask]⟩
      | worked works => cases works
    | _ => cases hstage

/-- The jobs that were handed to handlers in a run, in order. -/
def handed (run : List (Passage σ)) : List Job := run.flatMap (·.signals.filterMap Signal.handed?)

theorem handed_append (run more : List (Passage σ)) :
    handed (run ++ more) = handed run ++ handed more := by
  simp [handed]

/-- A job is handed to a handler only when its task looks for one. -/
theorem handed_of_step {q q' : Queue σ} {m : Move σ} {signals : List Signal}
    (made : q.step m = some (signals, q')) :
    (signals.filterMap Signal.handed?).Sublist (q.lookup? m).toList := by
  have hnone : ∀ {signals : List Signal}, signals.filterMap Signal.handed? = [] →
      (signals.filterMap Signal.handed?).Sublist (q.lookup? m).toList := by
    intro signals h
    rw [h]
    exact List.nil_sublist _
  cases step_moved made with
  | asked hasked => cases hasked <;> exact hnone rfl
  | proceeded _ hproceeded => cases hproceeded <;> exact hnone rfl
  | drained hdrained => cases hdrained <;> exact hnone rfl
  | drainedOff _ hdrained => cases hdrained <;> exact hnone rfl
  | advanced place hadvanced =>
    cases hadvanced with
    | handed => simp [Signal.handed?, lookup?, place, Stage.looking?]
    | worked works => cases works <;> exact hnone rfl
    | _ => exact hnone rfl

theorem Run.handed_sublist {settings : QueueSettings} {shared : σ} {run : List (Passage σ)}
    {q : Queue σ} (h : Run settings shared run q) : (handed run).Sublist (lookedUp run) := by
  induction h with
  | fresh => exact List.Sublist.refl _
  | @step run q q' m signals _ made ih =>
    have hlast : handed [⟨q, m, signals, q'⟩] = signals.filterMap Signal.handed? := by
      simp [handed]
    rw [handed_append, lookedUp_append, hlast, lookedUp_singleton]
    exact ih.append (handed_of_step made)

/-! ## One fate for each job -/

/-- Two steps of a run in which tasks look for the handler of one job are one step. -/
theorem same_lookup {past past' later later' : List (Passage σ)} {p p' : Passage σ} {job job' : Job}
    (heq : past ++ p :: later = past' ++ p' :: later')
    (once : ((lookedUp (past ++ p :: later)).map (·.id)).Nodup) (hlookup : p.lookup? = some job)
    (hlookup' : p'.lookup? = some job') (hid : job.id = job'.id) : past = past' ∧ p = p' := by
  -- a step that looks does not stand in front of another one that looks for the same job
  have hfront : ∀ {mid rest : List (Passage σ)} {p p' : Passage σ} {job job' : Job},
      ((lookedUp (p :: (mid ++ p' :: rest))).map (·.id)).Nodup → p.lookup? = some job →
      p'.lookup? = some job' → job.id ≠ job'.id := by
    intro mid rest p p' job job' hnodup hjob hjob' hid
    rw [lookedUp, List.filterMap_cons_some hjob, List.map_cons, List.nodup_cons] at hnodup
    exact hnodup.1 (hid ▸ List.mem_map_of_mem (mem_lookedUp hjob'))
  induction past generalizing past' with
  | nil =>
    cases past' with
    | nil => exact ⟨rfl, (List.cons.inj heq).1⟩
    | cons x rest =>
      obtain ⟨rfl, rfl⟩ := List.cons.inj heq
      exact absurd hid (hfront once hlookup hlookup')
  | cons x past ih =>
    cases past' with
    | nil =>
      obtain ⟨rfl, rfl⟩ := List.cons.inj heq
      exact absurd hid.symm (hfront once hlookup' hlookup)
    | cons y past' =>
      obtain ⟨rfl, hrest⟩ := List.cons.inj heq
      have honce : ((lookedUp (past ++ p :: later)).map (·.id)).Nodup := by
        refine once.sublist (List.Sublist.map _ ?_)
        exact (List.sublist_cons_self _ _).filterMap _
      obtain ⟨rfl, rfl⟩ := ih hrest honce
      exact ⟨rfl, rfl⟩

theorem fated_unique {run : List (Passage σ)} (once : ((lookedUp run).map (·.id)).Nodup)
    {job job' : Job} {o o' : Outcome} (h : Fated run job o) (h' : Fated run job' o')
    (hid : job.id = job'.id) : job = job' ∧ o = o' := by
  obtain ⟨past, p, later, rfl, hlookup, rfl⟩ := h
  obtain ⟨past', p', later', heq, hlookup', rfl⟩ := h'
  obtain ⟨rfl, rfl⟩ := same_lookup heq once hlookup hlookup' hid
  obtain rfl := Option.some.inj (hlookup.symm.trans hlookup')
  exact ⟨rfl, rfl⟩

/-! ## Other jobs -/

/-- A step of a task leaves the records of all jobs but its own. -/
theorem others_of_advance {q q' : Queue σ} {n : Nat} {now : Instant} {signals : List Signal}
    {t : Task σ} (made : q.step (.advance n now) = some (signals, q')) (ht : q.tasks[n]? = some t) :
    q'.table.jobs.filter (·.id ≠ t.job) = q.table.jobs.filter (·.id ≠ t.job) := by
  rw [(step_table made).1, tableAfter]
  obtain ⟨id, stage⟩ := t
  cases stage with
  | running work =>
    cases work with
    | report value extra rest =>
      simp only [tableMove?, ht, Option.elim_some]
      exact JobTable.filter_play (.inl ⟨value, extra, rfl⟩)
    | _ => simp [tableMove?, ht]
  | ended outcome =>
    simp only [tableMove?, ht, Option.elim_some]
    exact JobTable.filter_play (.inr ⟨outcome, now, rfl⟩)
  | _ => simp [tableMove?, ht]

/-! ## The law -/

/-- What is so when a task looks for the handler of a job, in a step behind a part of a run. -/
structure Dispatched (run past : List (Passage σ)) (p : Passage σ) (job : Job) : Prop where
  /-- The job goes to the handler that was registered last for its type, if there is one. -/
  hands : p.Hands job (registered? past job.type)
  begun : JustBegun (history past) job
  working : p.before.table.Stands job.id .processing
  /-- The job is not called off, neither before nor later. -/
  kept : ¬ (history run).Withdrawn job.id

theorem Run.dispatched {settings : QueueSettings} {shared : σ} {past later : List (Passage σ)}
    {p : Passage σ} {q : Queue σ} {job : Job} (h : Run settings shared (past ++ p :: later) q)
    (hlookup : p.lookup? = some job) : Dispatched (past ++ p :: later) past p job := by
  obtain ⟨hpast, made⟩ := h.at_step
  obtain ⟨hmine, hands⟩ := hands_of_lookup hpast made hlookup
  refine ⟨hands, hpast.faithful.begun _ _ hmine, ?_, ?_⟩
  · apply (hpast.reached.accounted.owned job.id).1
    rcases hmine with hdrain | htask
    · exact .inl ⟨job, hdrain⟩
    · exact .inr ⟨_, htask, rfl, rfl⟩
  · exact (h.away_of_looked (mem_lookedUp hlookup)).kept

/-- When the handler of a job is done, the next step of its task ends the job. -/
theorem ends_of_ended {settings : QueueSettings} {shared : σ} {run : List (Passage σ)} {q : Queue σ}
    (h : Run settings shared run q) {n : Nat} {id : String} {o : Outcome}
    (ht : q.tasks[n]? = some ⟨id, .ended o⟩) (now : Instant) :
    ∃ signals q' k, q.step (.advance n now) = some (signals, q') ∧ k ∈ q'.table.jobs ∧ k.id = id ∧
      o.Shows k := by
  obtain ⟨htable, -, fresh⟩ := h.reached.table
  have hn := h.reached.ids_nodup
  have hstands : q.table.Stands id .processing :=
    (h.reached.accounted.owned id).1 (.inr ⟨_, List.mem_of_getElem? ht, rfl, rfl⟩)
  obtain ⟨j, hj, rfl, hs, hfinish⟩ := JobTable.finish_of_stands hn hstands now o
  have herror : j.error = none := ((History.lawful _ fresh j (htable ▸ hj)).processing hs).2.2.1
  have made : q.step (.advance n now) =
      some ([], { q with table := q.table.put (j.ended now o) }.toStage n j.id
        (.telling (Job.endEvent j.id o))) := by
    simp [step, advance, ht, hfinish]
  have hid := JobTable.id_ended j now o
  exact ⟨_, _, j.ended now o, made, (JobTable.mem_put hn hj hid).2 (.inl rfl), hid,
    o.shows_ended now herror⟩

/-- Each job is handed out once, and ends as its handler has it. In every run no job is handed to
a handler twice; a task looks for a handler once, for a job as it was begun, that is worked on and
never called off, and hands it to the handler that was registered last for its type; each job that
has ended was called off before any task looked, or ended as what its task found had it, and for
no job there are two such ends; when a handler is done, the next step of the task ends the job; and
no step of a task changes the record of another job. -/
theorem each_job_handed_once {settings : QueueSettings} {shared : σ} {run : List (Passage σ)}
    {q : Queue σ} (h : Run settings shared run q) :
    ((handed run).map (·.id)).Nodup ∧
    (∀ past p later job, run = past ++ p :: later →
      (.handed job ∈ p.signals → p.lookup? = some job) ∧
      (p.lookup? = some job → Dispatched run past p job)) ∧
    (∀ j ∈ q.table.jobs, j.status.isTerminal = true →
      ((history run).Withdrawn j.id ∧ ∀ job ∈ lookedUp run, job.id ≠ j.id) ∨
        ∃ job o, job.id = j.id ∧ Fated run job o ∧ o.Shows j) ∧
    (∀ job o job' o', Fated run job o → Fated run job' o' → job.id = job'.id → job = job' ∧ o = o') ∧
    (∀ n id o now, q.tasks[n]? = some ⟨id, .ended o⟩ → (∃ job, job.id = id ∧ Fated run job o) ∧
      ∃ signals q' k, q.step (.advance n now) = some (signals, q') ∧ k ∈ q'.table.jobs ∧ k.id = id ∧
        o.Shows k) ∧
    ∀ p ∈ run, ∀ n now t, p.move = .advance n now → p.before.tasks[n]? = some t →
      p.after.table.jobs.filter (·.id ≠ t.job) = p.before.table.jobs.filter (·.id ≠ t.job) := by
  have fa := h.faithful
  refine ⟨fa.once.sublist (h.handed_sublist.map _), ?_, ?_, ?_, ?_, ?_⟩
  · rintro past p later job rfl
    refine ⟨fun hsignal => ?_, h.dispatched⟩
    have hmem : job ∈ p.signals.filterMap Signal.handed? :=
      List.mem_filterMap.2 ⟨.handed job, hsignal, rfl⟩
    exact Option.mem_toList.1 ((handed_of_step h.at_step.2).subset hmem)
  · intro j hj hs
    rcases fa.ended j hj hs with hw | hfated
    · refine .inl ⟨hw, fun job hjob hid => ?_⟩
      exact (h.away_of_looked hjob).kept (hid ▸ hw)
    · exact .inr hfated
  · intro job o job' o' hfated hfated' hid
    exact fated_unique fa.once hfated hfated' hid
  · intro n id o now ht
    exact ⟨fa.fated _ (List.mem_of_getElem? ht) o rfl, ends_of_ended h ht now⟩
  · intro p hp n now t hm ht
    obtain ⟨past, later, rfl⟩ := List.append_of_mem hp
    obtain ⟨-, made⟩ := h.at_step
    rw [hm] at made
    exact others_of_advance made ht

/-- The handler of a job is replaced before its task looks, a second job has no handler, and a third
one is called off. -/
def threeEnds : List (Move Unit) :=
  let once := [.drainOn ⟨2⟩, .drainOn ⟨2⟩, .drainOn ⟨2⟩, .drainOn ⟨2⟩]
  [.start, .register "work" (fun _ s => (.finish .succeeded, s)),
    .enqueue "a" ⟨"work", "r", .null⟩ ⟨0⟩, .enqueue "b" ⟨"play", "s", .null⟩ ⟨0⟩,
    .enqueue "c" ⟨"work", "t", .null⟩ ⟨0⟩] ++ once ++
  [.register "work" (fun _ s => (.finish (.panicked (some "boom")), s)), .cancel "c" ⟨3⟩] ++
  List.replicate 6 (.advance 0 ⟨4⟩) ++ once ++ List.replicate 5 (.advance 0 ⟨5⟩)

theorem each_job_handed_once_of_three :
    ∃ run q, Run oneSlot () run q ∧ (handed run).map (·.id) = ["a"] ∧
      q.table.jobs.map (·.status) = [.failed, .failed, .failed] ∧
      (q.table.find? "a").bind (·.error) = some "Task error: boom" ∧
      ((handed run).map (·.id)).Nodup ∧
      ∀ j ∈ q.table.jobs, j.status.isTerminal = true →
        ((history run).Withdrawn j.id ∧ ∀ job ∈ lookedUp run, job.id ≠ j.id) ∨
          ∃ job o, job.id = j.id ∧ Fated run job o ∧ o.Shows j :=
  have all : (walk? threeEnds (fresh oneSlot ())).isSome := by rfl
  have h := Run.fresh.walk (Option.some_get all).symm
  ⟨_, _, h, by rfl, by rfl, by rfl, (each_job_handed_once h).1, (each_job_handed_once h).2.2.1⟩

end Queue

end CodeSurvey
