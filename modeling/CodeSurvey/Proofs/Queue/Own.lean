-- The reports that handlers make on their jobs. A handler gives its task all reports at
-- once, and the task makes them one by one while others report as well; each of them is
-- noted, in order, and none is left when the job has ended.
import CodeSurvey.Proofs.Job.Noted
import CodeSurvey.Proofs.Queue.Dispatch

namespace CodeSurvey

/-! ## Reports to be made -/

/-- The reports that are left to be made. -/
def Work.reports {σ : Type} : Work σ → List Report
  | finish _ => []
  | report value extra rest => ⟨value, extra⟩ :: rest.reports
  | await _ rest => rest.reports

theorem Work.reports_ofReports {σ : Type} (reports : List Report) (outcome : Outcome) :
    (Work.ofReports reports outcome : Work σ).reports = reports := by
  induction reports with
  | nil => rfl
  | cons r rest ih => exact congrArg (r :: ·) ih

def Stage.left {σ : Type} : Stage σ → List Report
  | running work => work.reports
  | reporting _ rest => rest.reports
  | _ => []

theorem Stage.left_of_closed {σ : Type} {stage : Stage σ} (h : stage.isOpen = false) :
    stage.left = [] := by
  cases stage <;> first | rfl | cases h

namespace Queue

variable {σ : Type} {settings : QueueSettings} {shared : σ} {run : List (Passage σ)}
  {q q' : Queue σ} {id : String}

/-- The reports on the job that tasks have still to make. -/
def leftIn (id : String) (tasks : List (Task σ)) : List Report :=
  tasks.flatMap (fun t => if t.job = id then t.stage.left else [])

def left (q : Queue σ) (id : String) : List Report := leftIn id q.tasks

theorem leftIn_append (id : String) (xs ys : List (Task σ)) :
    leftIn id (xs ++ ys) = leftIn id xs ++ leftIn id ys := List.flatMap_append

theorem leftIn_cons (id : String) (t : Task σ) (ts : List (Task σ)) :
    leftIn id (t :: ts) = (if t.job = id then t.stage.left else []) ++ leftIn id ts := rfl

theorem leftIn_of_none {tasks : List (Task σ)} (h : ∀ t ∈ tasks, t.job ≠ id) :
    leftIn id tasks = [] :=
  List.flatMap_eq_nil_iff.2 fun t ht => if_neg (h t ht)

/-- Only the task of the job has reports on it to make. -/
theorem leftIn_alone {before after : List (Task σ)} (hother : ∀ t ∈ before ++ after, t.job ≠ id)
    (stage : Stage σ) : leftIn id (before ++ ⟨id, stage⟩ :: after) = stage.left := by
  have hbefore := leftIn_of_none fun t ht => hother t (List.mem_append_left _ ht)
  have hafter := leftIn_of_none fun t ht => hother t (List.mem_append_right _ ht)
  rw [leftIn_append, leftIn_cons, hbefore, hafter, if_pos rfl]
  exact List.append_nil _

theorem leftIn_other {i : String} (hne : i ≠ id) (before after : List (Task σ)) (stage : Stage σ) :
    leftIn id (before ++ ⟨i, stage⟩ :: after) = leftIn id (before ++ after) := by
  rw [leftIn_append, leftIn_cons, if_neg hne, leftIn_append]
  rfl

/-! ## One step -/

/-- The reports on the job that a task gets from the handler that it finds in the step. -/
def Passage.given (p : Passage σ) (id : String) : List Report :=
  match p.lookup? with
  | some job =>
    if job.id = id then
      ((p.before.handler? job.type).map fun handle => (handle job p.before.shared).1.reports).getD []
    else []
  | none => []

/-- The report on the job that a task makes in the step, where it is noted. -/
def Passage.own (p : Passage σ) (id : String) : List Report :=
  match p.move with
  | .advance _ _ => ((p.before.tableMove? p.move).bind (p.before.table.noted? id)).toList
  | _ => []

section Advancing

variable {before after : List (Task σ)} {i : String} {stage : Stage σ} {now : Instant}
  {signals : List Signal}

/-- A step of another task does not make or give reports on the job. -/
theorem own_given_of_other (h : Run settings shared run q)
    (place : q.tasks = before ++ ⟨i, stage⟩ :: after) (hne : i ≠ id) (now : Instant)
    (signals : List Signal) (q' : Queue σ) :
    let p : Passage σ := ⟨q, .advance before.length now, signals, q'⟩
    p.own id = [] ∧ p.given id = [] := by
  intro p
  have htask : q.tasks[before.length]? = some ⟨i, stage⟩ := by simp [place]
  have hlookup : p.lookup? = stage.looking? := by simp [p, Passage.lookup?, lookup?, htask]
  constructor
  · simp only [p, Passage.own, tableMove?, htask]
    cases stage with
    | running work => cases work <;> simp [JobTable.noted?, hne]
    | _ => rfl
  · rw [Passage.given, hlookup]
    cases stage with
    | looking job =>
      have hid : job.id = i := h.faithful.named i job (.inr (List.mem_of_getElem? htask))
      exact if_neg (hid ▸ hne)
    | _ => rfl

/-- A step of the task of the job gets reports, or makes the first that is left. -/
theorem own_left_of_same (h : Run settings shared run q)
    (place : q.tasks = before ++ ⟨id, stage⟩ :: after)
    (hadvanced : Advanced q before after id now stage signals q') :
    let p : Passage σ := ⟨q, .advance before.length now, signals, q'⟩
    p.own id ++ q'.left id = q.left id ++ p.given id := by
  intro p
  have htask : q.tasks[before.length]? = some ⟨id, stage⟩ := by simp [place]
  have hlookup : p.lookup? = stage.looking? := by simp [p, Passage.lookup?, lookup?, htask]
  obtain ⟨-, hother⟩ := h.reached.accounted.alone place
  have hleft : q.left id = stage.left := by rw [left, place, leftIn_alone hother]
  have hstage : ∀ (t : Queue σ) (stage' : Stage σ),
      (t.withTask before after id stage').left id = stage'.left :=
    fun t stage' => leftIn_alone hother stage'
  have hstands : stage.isOpen = true → q.table.Stands id .processing := fun ho =>
    (h.reached.accounted.owned id).1 (.inr ⟨_, List.mem_of_getElem? htask, rfl, ho⟩)
  rw [hleft]
  have hown : p.own id = ((q.tableMove? p.move).bind (q.table.noted? id)).toList := rfl
  have hgiven : p.given id = match p.lookup? with
    | some job => if job.id = id then
        ((q.handler? job.type).map fun handle => (handle job q.shared).1.reports).getD [] else []
    | none => [] := rfl
  rw [hlookup] at hgiven
  simp only [p, tableMove?, htask] at hown
  cases hadvanced with
  | @unhandled job none_ =>
    rw [hown, hgiven, hstage]
    simp [Stage.looking?, Stage.left, none_]
  | @handed job handle found =>
    have hid : job.id = id := h.faithful.named id job (.inr (List.mem_of_getElem? htask))
    rw [hown, hgiven, hstage]
    simp [Stage.looking?, Stage.left, found, hid]
  | worked works =>
    rw [hstage, hgiven]
    have hn := h.reached.ids_nodup
    cases works with
    | noted | notedSame | notNoted =>
      rw [hown, Option.bind_some, JobTable.noted?_of_stands hn (hstands rfl)]
      simp [Stage.looking?, Stage.left, Work.reports]
    | _ =>
      rw [hown]
      simp [Stage.looking?, Stage.left, Work.reports]
  | finished | notFinished | told | released =>
    rw [hown, hgiven, hstage]
    rfl
  | gone rung =>
    have hgone : q'.left id = [] := by
      rw [left, rung.drain.2.2.1]
      exact leftIn_of_none hother
    rw [hown, hgiven, hgone]
    rfl

/-- A step of another task leaves the reports on the job. -/
theorem left_of_other (place : q.tasks = before ++ ⟨i, stage⟩ :: after) (hne : i ≠ id)
    (hadvanced : Advanced q before after i now stage signals q') : q'.left id = q.left id := by
  rw [left, left, place, leftIn_other hne]
  cases hadvanced with
  | gone rung => rw [rung.drain.2.2.1]
  | _ => exact leftIn_other hne ..

end Advancing

/-- What is noted of a task's reports in a step, and what is left, make up what was left and what
the task got. -/
theorem own_left (h : Run settings shared run q) {m : Move σ} {signals : List Signal}
    (made : q.step m = some (signals, q')) :
    let p : Passage σ := ⟨q, m, signals, q'⟩
    p.own id ++ q'.left id = q.left id ++ p.given id := by
  intro p
  have hsame : q'.tasks = q.tasks → p.own id = [] → p.given id = [] →
      p.own id ++ q'.left id = q.left id ++ p.given id := by
    intro htasks hown hgiven
    rw [hown, hgiven, left, htasks, List.nil_append, List.append_nil]
    rfl
  cases step_moved made with
  | asked hasked => cases hasked <;> exact hsame rfl rfl rfl
  | proceeded _ hproceeded =>
    cases hproceeded with
    | rings rung => exact hsame rung.drain.2.2.1 rfl rfl
    | _ => exact hsame rfl rfl rfl
  | drained hdrained =>
    cases hdrained with
    | @dispatches job at_ =>
      have hleft : leftIn id [(⟨job.id, .looking job⟩ : Task σ)] = [] := by
        simp [leftIn, Stage.left]
      change [] ++ leftIn id (q.tasks ++ [⟨job.id, .looking job⟩]) = leftIn id q.tasks ++ []
      rw [leftIn_append, hleft]
      rfl
    | _ => exact hsame rfl rfl rfl
  | drainedOff _ hdrained => cases hdrained <;> exact hsame rfl rfl rfl
  | @advanced before after i stage now _ _ place hadvanced =>
    by_cases hid : i = id
    · subst hid
      exact own_left_of_same h place hadvanced
    · obtain ⟨hown, hgiven⟩ := own_given_of_other h place hid now signals q'
      rw [show p.own id = [] from hown, show p.given id = [] from hgiven,
        left_of_other place hid hadvanced, List.append_nil]
      rfl

/-! ## Runs -/

/-- The reports on the job that tasks made in the run and that were noted. -/
def own (run : List (Passage σ)) (id : String) : List Report := run.flatMap (·.own id)

/-- The reports on the job that tasks got in the run. -/
def given (run : List (Passage σ)) (id : String) : List Report := run.flatMap (·.given id)

/-- The reports that a task got are noted in order, up to those that are left. -/
theorem Run.own_left (h : Run settings shared run q) (id : String) :
    own run id ++ q.left id = given run id := by
  induction h with
  | fresh => rfl
  | @step run q q' m signals past made ih =>
    have hone : Passage.own ⟨q, m, signals, q'⟩ id ++ q'.left id =
        q.left id ++ Passage.given ⟨q, m, signals, q'⟩ id := Queue.own_left past made
    unfold own given at ih ⊢
    rw [List.flatMap_append, List.flatMap_append, List.flatMap_singleton, List.flatMap_singleton,
      List.append_assoc, hone, ← List.append_assoc, ih]

/-- A task gets the reports of the one handler that it finds. -/
theorem Run.given_of_lookup {past later : List (Passage σ)} {p : Passage σ} {job : Job}
    {handle : Handler σ} (h : Run settings shared (past ++ p :: later) q)
    (hlookup : p.lookup? = some job) (found : registered? past job.type = some handle) :
    given (past ++ p :: later) job.id = (handle job p.before.shared).1.reports := by
  obtain ⟨hpast, -⟩ := h.at_step
  have once := h.faithful.once
  rw [lookedUp, List.filterMap_append, List.filterMap_cons_some hlookup, List.map_append,
    List.map_cons, List.nodup_append] at once
  obtain ⟨-, hlater, hpastOther⟩ := once
  -- no other step looks for the handler of the job
  have hother : ∀ {steps : List (Passage σ)},
      job.id ∉ (steps.filterMap Passage.lookup?).map (·.id) → given steps job.id = [] := by
    intro steps hnot
    refine List.flatMap_eq_nil_iff.2 fun p' hp' => ?_
    unfold Passage.given
    cases hjob' : p'.lookup? with
    | none => rfl
    | some job' =>
      refine if_neg fun hid => hnot ?_
      exact hid ▸ List.mem_map_of_mem (List.mem_filterMap.2 ⟨p', hp', hjob'⟩)
  have hgiven : p.given job.id = (handle job p.before.shared).1.reports := by
    have hhandler := (hpast.handler? job.type).trans found
    simp [Passage.given, hlookup, hhandler]
  have hsplit : given (past ++ p :: later) job.id =
      given past job.id ++ (p.given job.id ++ given later job.id) := by simp [given]
  rw [hsplit, hgiven, hother fun hin => hpastOther _ hin _ (.head _) rfl,
    hother (List.nodup_cons.1 hlater).1, List.append_nil]
  rfl

/-- When a job is no longer worked on, no report of its task is left. -/
theorem Run.left_of_not_stands (h : Run settings shared run q)
    (hnot : ¬ q.table.Stands id .processing) : q.left id = [] := by
  refine List.flatMap_eq_nil_iff.2 fun t ht => ?_
  split
  · rename_i hid
    refine Stage.left_of_closed (Bool.eq_false_iff.2 fun ho => hnot ?_)
    exact (h.reached.accounted.owned id).1 (.inr ⟨t, ht, hid, ho⟩)
  · rfl

/-! ## Reports of callers between them -/

/-- The report on the job that is noted in the step. -/
def Passage.noted (p : Passage σ) (id : String) : List Report :=
  ((p.before.tableMove? p.move).bind (p.before.table.noted? id)).toList

/-- It was made by a task or by a caller. -/
theorem Passage.noted_cases (p : Passage σ) (id : String) :
    p.noted id = p.own id ∨
      p.own id = [] ∧ ∀ r ∈ p.noted id, p.move = .report id r.value r.extra := by
  obtain ⟨q, m, signals, q'⟩ := p
  cases m with
  | report i value extra =>
    refine .inr ⟨rfl, fun r hr => ?_⟩
    have hr : r ∈ (q.table.noted? id (.report i value extra)).toList := hr
    obtain ⟨hm, -⟩ := JobTable.noted?_eq_some (Option.mem_toList.1 hr)
    obtain ⟨rfl, rfl, rfl⟩ := TableMove.report.inj hm
    rfl
  | proceed n =>
    left
    simp only [Passage.noted, tableMove?, Passage.own]
    split <;> rfl
  | drainOn now =>
    left
    simp only [Passage.noted, tableMove?, Passage.own]
    split <;> rfl
  | _ => exact .inl rfl

theorem Run.noted_snoc {p : Passage σ} (h : Run settings shared run p.before) (id : String) :
    (history (run ++ [p])).noted id = (history run).noted id ++ p.noted id := by
  rw [history_append, history_singleton, Passage.noted, h.reached.table.1]
  cases p.before.tableMove? p.move with
  | none => simp
  | some c => exact History.noted_snoc _ c id

/-- Each report that is noted in a run was made by a task or by a caller. -/
theorem Run.own_or_called (h : Run settings shared run q) {r : Report}
    (hr : r ∈ (history run).noted id) :
    r ∈ own run id ∨ ∃ p ∈ run, p.move = .report id r.value r.extra := by
  induction h with
  | fresh => cases hr
  | @step run q q' m signals past made ih =>
    have hown : own (run ++ [⟨q, m, signals, q'⟩]) id =
        own run id ++ Passage.own ⟨q, m, signals, q'⟩ id := by simp [own]
    rw [Run.noted_snoc (p := ⟨q, m, signals, q'⟩) past, List.mem_append] at hr
    rw [hown, List.mem_append]
    rcases hr with hr | hr
    · rcases ih hr with hown | ⟨p, hp, hmove⟩
      · exact .inl (.inl hown)
      · exact .inr ⟨p, List.mem_append_left _ hp, hmove⟩
    · rcases Passage.noted_cases ⟨q, m, signals, q'⟩ id with hsame | ⟨-, hcalled⟩
      · exact .inl (.inr (hsame ▸ hr))
      · exact .inr ⟨_, List.mem_append_right _ (.head _), hcalled r hr⟩

/-- In the run callers say nothing about the job under the key, and do not replace its data. -/
def Unsaid (run : List (Passage σ)) (id key : String) : Prop :=
  ∀ p ∈ run, ∀ value extra, p.move = .report id value (some extra) →
    ∃ entries, extra = .object entries ∧ Json.lookup key entries = none

/-- Under a key about which callers say nothing, all that is said is said by the task. -/
theorem Run.said_own {key : String} (h : Run settings shared run q) (unsaid : Unsaid run id key) :
    saidUnder key ((history run).noted id) = saidUnder key (own run id) := by
  induction h with
  | fresh => rfl
  | @step run q q' m signals past made ih =>
    have ih := ih fun p hp => unsaid p (List.mem_append_left _ hp)
    have hown : own (run ++ [⟨q, m, signals, q'⟩]) id =
        own run id ++ Passage.own ⟨q, m, signals, q'⟩ id := by simp [own]
    rw [Run.noted_snoc (p := ⟨q, m, signals, q'⟩) past, hown, saidUnder_append, saidUnder_append, ih]
    congr 1
    rcases Passage.noted_cases ⟨q, m, signals, q'⟩ id with hsame | ⟨hnone, hcalled⟩
    · rw [hsame]
    · rw [hnone]
      refine List.filterMap_eq_nil_iff.2 fun r hr => ?_
      cases hextra : r.extra with
      | none => rfl
      | some extra =>
        obtain ⟨entries, rfl, hmissing⟩ := unsaid ⟨q, m, signals, q'⟩ (by simp) r.value extra
          (by rw [hcalled r hr, hextra])
        exact hmissing

/-- What the data of a job have under a key when it is no longer worked on: what its handler said
last about it, or else what the job was asked for with. -/
theorem Run.data_of_ended {past later : List (Passage σ)} {p : Passage σ} {job j : Job}
    {handle : Handler σ} {key : String} (h : Run settings shared (past ++ p :: later) q)
    (hlookup : p.lookup? = some job) (found : registered? past job.type = some handle)
    (hj : j ∈ q.table.jobs) (hid : j.id = job.id) (ended : j.status ≠ .processing)
    (unsaid : Unsaid (past ++ p :: later) job.id key)
    (hclear : ∀ r ∈ (handle job p.before.shared).1.reports, ∀ e, r.extra = some e →
      e.IsClearOn key) :
    j.data.get? key = (saidUnder key (handle job p.before.shared).1.reports).getLast?.or
      (job.data.get? key) := by
  obtain ⟨htable, -, fresh⟩ := h.reached.table
  have hnot : ¬ q.table.Stands job.id .processing := fun hs =>
    ended (JobTable.stands_unique h.reached.ids_nodup ⟨j, hj, hid, rfl⟩ hs)
  have hown : own (past ++ p :: later) job.id = (handle job p.before.shared).1.reports := by
    rw [← h.given_of_lookup hlookup found, ← h.own_left, h.left_of_not_stands hnot,
      List.append_nil]
  -- the job that the handler got has the data that it was asked for with
  obtain ⟨request, hasked, hdata⟩ := (History.addsUp _ fresh j (htable ▸ hj)).data
  obtain ⟨request', hasked', -, -, hpayload⟩ := (h.dispatched hlookup).begun.asked
  have hsame : request = request' := by
    refine History.request_unique fresh hasked ?_
    rw [hid, history_append, History.requests_append]
    exact List.mem_append_left _ hasked'
  rw [hdata, hid, hsame, ← hpayload, get?_addedBy, h.said_own unsaid, hown]
  intro r hr e he
  rcases h.own_or_called hr with hmine | ⟨p', hp', hmove⟩
  · exact hclear r (hown ▸ hmine) e he
  · obtain ⟨entries, rfl, hnone⟩ := unsaid p' hp' r.value e (by rw [hmove, he])
    exact Json.isClearOn_of_none hnone

end Queue

end CodeSurvey
