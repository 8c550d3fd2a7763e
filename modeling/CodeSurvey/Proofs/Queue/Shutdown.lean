-- A queue that was told to stop. The drain may have gone past its last look at the
-- flag, and then it begins one job more, at most; jobs that are worked on are left
-- to their tasks, and jobs that wait go on waiting. Told before the drain was
-- started, the queue forgets it.
import CodeSurvey.Proofs.Queue.Bell
import CodeSurvey.Proofs.Queue.Dispatch

namespace CodeSurvey

/-- A job that waits goes on waiting, unless it is called off or claimed. -/
theorem JobTable.waits_on {t : JobTable} (hn : t.ids.Nodup) {id : String}
    (waits : t.Stands id .pending) (m : TableMove) :
    (t.play m).Stands id .pending ∨ (∃ now, m = .cancel id now) ∨
      ∃ now j, m = .claim now ∧ t.next? = some j ∧ j.id = id := by
  have hp := played hn m
  generalize t.play m = t' at hp
  cases hp with
  | pushed =>
    obtain ⟨j, hj, hid, hs⟩ := waits
    exact .inl ⟨j, List.mem_append_left _ hj, hid, hs⟩
  | @turned m j k mem turn =>
    by_cases hid : id = j.id
    · subst hid
      have hs := stands_unique hn ⟨j, mem, rfl, rfl⟩ waits
      cases turn with
      | withdrawn => exact .inr (.inl ⟨_, rfl⟩)
      | begun next => exact .inr (.inr ⟨_, j, rfl, next, rfl⟩)
      | reported processing | ended processing => simp [processing] at hs
    · rw [stands_put hn mem turn.same.1, if_neg hid]
      exact .inl waits
  | evicted =>
    obtain ⟨j, hj, hid, hs⟩ := waits
    refine .inl ⟨j, List.mem_filter.2 ⟨hj, ?_⟩, hid, hs⟩
    simp [Job.isExpired, hs, JobStatus.isTerminal]
  | refused => exact .inl waits

/-- A drain that shall stop, and is there, may begin a job before it looks at the flag again. -/
def Drain.mayBegin : Drain → Bool
  | acquiring => true
  | claiming => true
  | resting => true
  | waiting => true
  | woken => true
  | _ => false

/-- Each wait of the work passes, when the work alone changes the state. -/
def Work.Passes {σ : Type} : Work σ → σ → Prop
  | finish _, _ => True
  | report _ _ rest, s => rest.Passes s
  | await pass rest, s => ∃ s', pass s = some s' ∧ rest.Passes s'

namespace Queue

variable {σ : Type} {settings : QueueSettings} {shared : σ}

/-! ## Jobs that are begun -/

/-- The job that a step begins to work on: the drain claims the next one of the table. -/
def Passage.begun? (p : Passage σ) : Option Job :=
  match p.before.tableMove? p.move with
  | some (.claim _) => p.before.table.next?
  | _ => none

/-- The jobs that were begun in a run, in order. -/
def begun (run : List (Passage σ)) : List Job := run.filterMap Passage.begun?

@[simp] theorem begun_nil : begun ([] : List (Passage σ)) = [] := rfl

@[simp] theorem begun_snoc (run : List (Passage σ)) (p : Passage σ) :
    begun (run ++ [p]) = begun run ++ p.begun?.toList := by
  unfold begun
  cases h : p.begun? <;> simp [h]

theorem Passage.begun?_eq_some {p : Passage σ} {j : Job} :
    p.begun? = some j ↔ ∃ now, p.before.tableMove? p.move = some (.claim now) ∧
      p.before.table.next? = some j := by
  unfold begun?
  constructor
  · intro h
    split at h
    · exact ⟨_, ‹_›, h⟩
    · cases h
  · rintro ⟨now, hm, next⟩
    rw [hm]
    exact next

/-- A step begins the job that waits before it and is worked on behind it. -/
theorem Passage.begun?_iff {p : Passage σ}
    (made : p.before.step p.move = some (p.signals, p.after)) (hn : p.before.table.ids.Nodup)
    (id : String) : (∃ j, p.begun? = some j ∧ j.id = id) ↔
      p.before.table.Stands id .pending ∧ p.after.table.Stands id .processing := by
  constructor
  · rintro ⟨j, hbegun, rfl⟩
    obtain ⟨now, hm, next⟩ := begun?_eq_some.1 hbegun
    obtain ⟨hj, hs, -⟩ := JobTable.next?_eq_some next
    exact ⟨⟨j, hj, rfl, hs⟩, (step_processing made hn j.id).2 (.inr ⟨now, j, hm, next, rfl⟩)⟩
  · rintro ⟨waits, works⟩
    rcases (step_processing made hn id).1 works with ⟨worked, -⟩ | ⟨now, j, hm, next, hid⟩
    · cases JobTable.stands_unique hn waits worked
    · exact ⟨j, begun?_eq_some.2 ⟨now, hm, next⟩, hid⟩

/-! ## The later part of a run -/

/-- What holds behind a step of a run and is kept by each later step holds at the end. -/
theorem Run.since {P : List (Passage σ) → Queue σ → Prop} {past later : List (Passage σ)}
    {p : Passage σ} {q : Queue σ} (h : Run settings shared (past ++ p :: later) q)
    (base : P [] p.after)
    (step : ∀ mid x, Run settings shared (past ++ p :: mid) x.before →
      x.before.step x.move = some (x.signals, x.after) → P mid x.before →
      P (mid ++ [x]) x.after) : P later q := by
  induction later using List.reverseRecOn generalizing q with
  | nil => exact h.after_last ▸ base
  | append_singleton mid x ih =>
    have h' : Run settings shared ((past ++ p :: mid) ++ x :: []) q := by simpa using h
    obtain ⟨hmid, made⟩ := h'.at_step
    exact h'.after_last ▸ step mid x hmid made (ih hmid)

/-! ## A drain that shall stop -/

/-- The drain was started, and shall stop. -/
structure Halting (q : Queue σ) : Prop where
  started : q.started = true
  stopping : q.stopping = true

theorem Halting.step {q q' : Queue σ} {m : Move σ} {signals : List Signal} (halting : Halting q)
    (made : q.step m = some (signals, q')) :
    Halting q' ∧ (q'.drain.mayBegin = true → q.drain.mayBegin = true) := by
  obtain ⟨hstarted, hstopping⟩ := halting
  cases step_moved made with
  | asked hasked =>
    cases hasked with
    | started first => simp [hstarted] at first
    | _ => exact ⟨⟨hstarted, by first | exact hstopping | rfl⟩, id⟩
  | proceeded _ hproceeded =>
    cases hproceeded with
    | rings hrung =>
      cases hrung with
      | wakes at_ => exact ⟨⟨hstarted, hstopping⟩, fun _ => by rw [show q.drain = _ from at_]; rfl⟩
      | later => exact ⟨⟨hstarted, hstopping⟩, id⟩
    | _ => exact ⟨⟨hstarted, hstopping⟩, id⟩
  | drained hdrained =>
    cases hdrained with
    | goesOn _ unasked => simp [hstopping] at unasked
    | stops at_ | acquires at_ | claims at_ | findsNone at_ | dispatches at_ | hears at_ | waits at_
    | wakes at_ => exact ⟨⟨hstarted, hstopping⟩, by simp [at_, Drain.mayBegin]⟩
  | drainedOff _ hdrained =>
    cases hdrained <;> exact ⟨⟨hstarted, hstopping⟩, by simp [Drain.mayBegin]⟩
  | advanced _ hadvanced =>
    cases hadvanced with
    | gone hrung =>
      cases hrung with
      | wakes at_ => exact ⟨⟨hstarted, hstopping⟩, fun _ => by rw [show q.drain = _ from at_]; rfl⟩
      | later => exact ⟨⟨hstarted, hstopping⟩, id⟩
    | _ => exact ⟨⟨hstarted, hstopping⟩, id⟩

/-- Behind a step that begins a job the drain tells of it, and then looks at the flag. -/
theorem Passage.drain_of_begun? {p : Passage σ} {j : Job}
    (made : p.before.step p.move = some (p.signals, p.after)) (hbegun : p.begun? = some j) :
    p.before.drain.mayBegin = true ∧ p.after.drain.mayBegin = false := by
  obtain ⟨now, hm, next⟩ := begun?_eq_some.1 hbegun
  obtain ⟨hmove, hdrain⟩ := claim_of_tableMove? hm
  obtain ⟨q, m, signals, q'⟩ := p
  dsimp only at made hmove hdrain next ⊢
  rw [hmove] at made
  cases step_moved made with
  | asked hasked => cases hasked
  | drained hdrained =>
    cases hdrained with
    | claims => exact ⟨by rw [hdrain]; rfl, rfl⟩
    | findsNone _ none_ => simp [JobTable.claim, next] at none_
    | stops at_ | goesOn at_ | acquires at_ | dispatches at_ | hears at_ | waits at_ | wakes at_ =>
      rw [hdrain] at at_
      cases at_

/-- A drain that shall stop begins one job at most, and none where it begins none before it looks
at the flag. -/
theorem Run.begun_le {past later : List (Passage σ)} {p : Passage σ} {q : Queue σ}
    (h : Run settings shared (past ++ p :: later) q) (halting : Halting p.after) :
    (begun later).length + q.drain.mayBegin.toNat ≤ p.after.drain.mayBegin.toNat := by
  suffices Halting q ∧
      (begun later).length + q.drain.mayBegin.toNat ≤ p.after.drain.mayBegin.toNat from this.2
  refine h.since (P := fun mid q => Halting q ∧
    (begun mid).length + q.drain.mayBegin.toNat ≤ p.after.drain.mayBegin.toNat) ⟨halting, ?_⟩ ?_
  · simp
  · rintro mid x hmid made ⟨hx, hle⟩
    obtain ⟨hafter, hmay⟩ := hx.step made
    refine ⟨hafter, ?_⟩
    rw [begun_snoc, List.length_append]
    cases hbegun : x.begun? with
    | none =>
      have : x.after.drain.mayBegin.toNat ≤ x.before.drain.mayBegin.toNat := by
        cases hafter : x.after.drain.mayBegin with
        | false => exact Nat.zero_le _
        | true => rw [hmay hafter]
      simp only [Option.toList_none, List.length_nil]
      omega
    | some j =>
      obtain ⟨hbefore, hnot⟩ := x.drain_of_begun? made hbegun
      simp only [hbefore, Bool.toNat_true] at hle
      simp only [hnot, Option.toList_some, List.length_singleton, Bool.toNat_false]
      omega

/-! ## Jobs that wait -/

/-- The job waits behind a step, or is asked for later. -/
def WaitsSince (p : Passage σ) (later : List (Passage σ)) (id : String) : Prop :=
  p.after.table.Stands id .pending ∨ ∃ x ∈ later, ∃ request now, x.move = .enqueue id request now

/-- The job is called off in a run. -/
def CalledOff (run : List (Passage σ)) (id : String) : Prop :=
  ∃ x ∈ run, ∃ now, x.move = .cancel id now

theorem cancel_of_tableMove? {q : Queue σ} {m : Move σ} {id : String} {now : Instant}
    (h : q.tableMove? m = some (.cancel id now)) : m = .cancel id now := by
  cases m with
  | cancel => simpa [tableMove?] using h
  | proceed n | advance n t | drainOn t =>
    simp only [tableMove?] at h
    split at h <;> cases h
  | _ => cases h

theorem Run.waits_on {past later : List (Passage σ)} {p : Passage σ} {q : Queue σ}
    (h : Run settings shared (past ++ p :: later) q) {id : String} (waits : WaitsSince p later id) :
    q.table.Stands id .pending ∨ CalledOff later id ∨ ∃ j ∈ begun later, j.id = id := by
  refine h.since (P := fun mid q => WaitsSince p mid id →
    q.table.Stands id .pending ∨ CalledOff mid id ∨ ∃ j ∈ begun mid, j.id = id) ?_ ?_ waits
  · rintro (hp | ⟨x, hx, -⟩)
    · exact .inl hp
    · cases hx
  · intro mid x hmid made ih hwaits
    rw [begun_snoc]
    have hn := hmid.reached.ids_nodup
    by_cases hbefore : WaitsSince p mid id
    · rcases ih hbefore with hstands | ⟨y, hy, hoff⟩ | ⟨j, hj, hid⟩
      · have htable : x.after.table = x.before.tableAfter x.move := (step_table made).1
        unfold tableAfter at htable
        cases hm : x.before.tableMove? x.move with
        | none =>
          rw [hm] at htable
          exact .inl (htable ▸ hstands)
        | some c =>
          rw [hm] at htable
          rcases JobTable.waits_on hn hstands c with hstill | ⟨now, rfl⟩ | ⟨now, j, rfl, next, hid⟩
          · exact .inl (htable ▸ hstill)
          · exact .inr (.inl ⟨x, by simp, now, cancel_of_tableMove? hm⟩)
          · have hbegun := Passage.begun?_eq_some.2 ⟨now, hm, next⟩
            exact .inr (.inr ⟨j, by simp [hbegun], hid⟩)
      · exact .inr (.inl ⟨y, List.mem_append_left _ hy, hoff⟩)
      · exact .inr (.inr ⟨j, List.mem_append_left _ hj, hid⟩)
    · -- the job is asked for in this step
      rcases hwaits with hp | ⟨y, hy, request, now, hmove⟩
      · exact absurd (.inl hp) hbefore
      · rcases List.mem_append.1 hy with hy | hy
        · exact absurd (.inr ⟨y, hy, request, now, hmove⟩) hbefore
        · obtain rfl := List.mem_singleton.1 hy
          refine .inl ?_
          rw [(step_table made).1, tableAfter, hmove]
          exact ⟨.ofRequest id now request, by simp [tableMove?, JobTable.play, JobTable.push], rfl,
            rfl⟩

/-! ## Jobs that are worked on -/

/-- The job ends in a step of a part of the run, as its handler had it. -/
def EndsIn (run part : List (Passage σ)) (id : String) : Prop :=
  ∃ x ∈ part, x.before.table.Stands id .processing ∧ ∃ job o, job.id = id ∧ Fated run job o ∧
    ∃ k ∈ x.after.table.jobs, k.id = id ∧ o.Shows k

theorem EndsIn.append {run part : List (Passage σ)} {id : String} (h : EndsIn run part id)
    (more : List (Passage σ)) : EndsIn (run ++ more) (part ++ more) id := by
  obtain ⟨x, hx, hstands, job, o, hid, hfated, hshows⟩ := h
  exact ⟨x, List.mem_append_left _ hx, hstands, job, o, hid, hfated.append more, hshows⟩

/-- A job that is worked on leaves that only by a step that ends it as its handler had it. -/
theorem Run.works_on {past later : List (Passage σ)} {p : Passage σ} {q : Queue σ}
    (h : Run settings shared (past ++ p :: later) q) {id : String}
    (works : p.after.table.Stands id .processing) :
    q.table.Stands id .processing ∨ EndsIn (past ++ p :: later) later id := by
  refine h.since (P := fun mid q =>
    q.table.Stands id .processing ∨ EndsIn (past ++ p :: mid) mid id) (.inl works) ?_
  rintro mid x hmid made (hstands | hended)
  · have hn := hmid.reached.ids_nodup
    by_cases hfinish : ∃ o now, x.before.tableMove? x.move = some (.finish id o now)
    · obtain ⟨o, now, hm⟩ := hfinish
      obtain ⟨n, hmove, htask⟩ := advance_of_finish hm
      obtain ⟨job, hid, hfated⟩ := hmid.faithful.fated _ (List.mem_of_getElem? htask) o rfl
      obtain ⟨signals, q', k, made', hk, hkid, hshows⟩ := ends_of_ended hmid htask now
      rw [← hmove, made] at made'
      obtain ⟨-, rfl⟩ := Prod.mk.inj (Option.some.inj made')
      refine .inr ⟨x, by simp, hstands, job, o, hid, ?_, k, hk, hkid, hshows⟩
      simpa using hfated.append [x]
    · refine .inl ((step_processing made hn id).2 (.inl ⟨hstands, fun o now hm => ?_⟩))
      exact hfinish ⟨o, now, hm⟩
  · exact .inr (by simpa using hended.append [x])

/-! ## Tasks that get to the end -/

/-- The handler of a task gets through its waits, or will once the task has found it. -/
def Gets (q : Queue σ) : Stage σ → Prop
  | .looking job =>
    ∀ handle, q.handler? job.type = some handle →
      (handle job q.shared).1.Passes (handle job q.shared).2
  | .running work => work.Passes q.shared
  | .reporting _ rest => rest.Passes q.shared
  | _ => True

/-- Whoever has the job gets through its waits. -/
def Unheld (q : Queue σ) (id : String) : Prop :=
  (∀ job, q.drain.begun? = some job → job.id = id → q.Gets (.looking job)) ∧
    ∀ t ∈ q.tasks, t.job = id → q.Gets t.stage

/-- The step is one of the drain or of a task. -/
def Passage.IsInner (x : Passage σ) : Prop :=
  ∃ now, x.move = .drainOn now ∨ ∃ n, x.move = .advance n now

/-- The run goes on with steps of the drain and of tasks alone, up to a queue. -/
def Onward (settings : QueueSettings) (shared : σ) (run : List (Passage σ))
    (there : List (Passage σ) → Queue σ → Prop) : Prop :=
  ∃ more q, Run settings shared (run ++ more) q ∧ (∀ x ∈ more, x.IsInner) ∧ there (run ++ more) q

theorem Onward.of_step {run : List (Passage σ)} {q q' : Queue σ} {m : Move σ}
    {signals : List Signal} {there : List (Passage σ) → Queue σ → Prop}
    (h : Run settings shared run q) (made : q.step m = some (signals, q'))
    (inner : (⟨q, m, signals, q'⟩ : Passage σ).IsInner)
    (rest : Run settings shared (run ++ [⟨q, m, signals, q'⟩]) q' →
      Onward settings shared (run ++ [⟨q, m, signals, q'⟩]) there) :
    Onward settings shared run there := by
  obtain ⟨more, last, hrun, hmore, hthere⟩ := rest (h.step made)
  refine ⟨⟨q, m, signals, q'⟩ :: more, last, by simpa using hrun, ?_, by simpa using hthere⟩
  intro x hx
  rcases List.mem_cons.1 hx with rfl | hx
  · exact inner
  · exact hmore x hx

theorem Onward.of_advance {run : List (Passage σ)} {q q' : Queue σ} {n : Nat}
    {signals : List Signal} {there : List (Passage σ) → Queue σ → Prop}
    (h : Run settings shared run q) (made : q.step (.advance n ⟨0⟩) = some (signals, q'))
    (rest : Run settings shared (run ++ [⟨q, .advance n ⟨0⟩, signals, q'⟩]) q' →
      Onward settings shared (run ++ [⟨q, .advance n ⟨0⟩, signals, q'⟩]) there) :
    Onward settings shared run there := .of_step h made ⟨⟨0⟩, .inr ⟨n, rfl⟩⟩ rest

theorem Onward.here {run : List (Passage σ)} {q : Queue σ}
    {there : List (Passage σ) → Queue σ → Prop} (h : Run settings shared run q)
    (hthere : there run q) : Onward settings shared run there :=
  ⟨[], q, by simpa using h, by simp, by simpa using hthere⟩

theorem toStage_task {q : Queue σ} {n : Nat} {t : Task σ} (ht : q.tasks[n]? = some t) (id : String)
    (stage : Stage σ) : (q.toStage n id stage).tasks[n]? = some ⟨id, stage⟩ := by
  obtain ⟨hn, -⟩ := List.getElem?_eq_some_iff.1 ht
  simp [toStage, hn]

/-- The task at a place has a handler that is done. -/
def Done (n : Nat) (id : String) (_ : List (Passage σ)) (q : Queue σ) : Prop :=
  ∃ o, q.tasks[n]? = some ⟨id, .ended o⟩

/-- A handler gets through its work, when its waits pass. -/
theorem onward_of_running {run : List (Passage σ)} {q : Queue σ} (h : Run settings shared run q)
    {n : Nat} {id : String} {work : Work σ} (ht : q.tasks[n]? = some ⟨id, .running work⟩)
    (passes : work.Passes q.shared) : Onward settings shared run (Done n id) := by
  induction work generalizing run q with
  | finish outcome =>
    have made : q.step (.advance n ⟨0⟩) = some ([], q.toStage n id (.ended outcome)) := by
      simp [step, advance, ht]
    refine .of_advance h made fun h' => .here h' ⟨outcome, toStage_task ht _ _⟩
  | report value extra rest ih =>
    cases hreport : q.table.report id value extra with
    | none =>
      have made : q.step (.advance n ⟨0⟩) = some ([], q.toStage n id (.running rest)) := by
        simp [step, advance, ht, hreport]
      exact .of_advance h made fun h' => ih h' (toStage_task ht _ _) passes
    | some noted =>
      obtain ⟨t, event⟩ := noted
      have ht' : { q with table := t }.tasks[n]? =
        some ⟨id, .running (.report value extra rest)⟩ := ht
      cases event with
      | none =>
        have made : q.step (.advance n ⟨0⟩) =
            some ([], { q with table := t }.toStage n id (.running rest)) := by
          simp [step, advance, ht, hreport]
        exact .of_advance h made fun h' => ih h' (toStage_task ht' _ _) passes
      | some event =>
        have made : q.step (.advance n ⟨0⟩) =
            some ([], { q with table := t }.toStage n id (.reporting event rest)) := by
          simp [step, advance, ht, hreport]
        refine .of_advance h made fun h' => ?_
        have htold := toStage_task ht' id (.reporting event rest)
        have made' : ({ q with table := t }.toStage n id (.reporting event rest)).step
            (.advance n ⟨0⟩) = some ([.told event],
              ({ q with table := t }.toStage n id (.reporting event rest)).toStage n id
                (.running rest)) := by
          simp [step, advance, htold]
        exact .of_advance h' made' fun h'' => ih h'' (toStage_task htold _ _) passes
  | await pass rest ih =>
    obtain ⟨s, hpass, hrest⟩ := passes
    have ht' : { q with shared := s }.tasks[n]? = some ⟨id, .running (.await pass rest)⟩ := ht
    have made : q.step (.advance n ⟨0⟩) =
        some ([], { q with shared := s }.toStage n id (.running rest)) := by
      simp [step, advance, ht, hpass]
    exact .of_advance h made fun h' => ih h' (toStage_task ht' _ _) hrest

/-- A task whose job has not ended gets to where its handler is done. -/
theorem onward_of_task {run : List (Passage σ)} {q : Queue σ} (h : Run settings shared run q)
    {n : Nat} {id : String} {stage : Stage σ} (ht : q.tasks[n]? = some ⟨id, stage⟩)
    (hopen : stage.isOpen = true) (gets : q.Gets stage) :
    Onward settings shared run (Done n id) := by
  cases stage with
  | looking job =>
    cases hhandler : q.handler? job.type with
    | none =>
      have made : q.step (.advance n ⟨0⟩) =
          some ([], q.toStage n id (.ended (.failed (.noHandler job.type)))) := by
        simp [step, advance, ht, hhandler]
      exact .of_advance h made fun h' => .here h' ⟨_, toStage_task ht _ _⟩
    | some handle =>
      have ht' : { q with shared := (handle job q.shared).2 }.tasks[n]? =
        some ⟨id, .looking job⟩ := ht
      have made : q.step (.advance n ⟨0⟩) = some ([.handed job],
          { q with shared := (handle job q.shared).2 }.toStage n id
            (.running (handle job q.shared).1)) := by
        simp [step, advance, ht, hhandler]
      exact .of_advance h made fun h' =>
        onward_of_running h' (toStage_task ht' _ _) (gets handle hhandler)
  | running work => exact onward_of_running h ht gets
  | reporting event rest =>
    have made : q.step (.advance n ⟨0⟩) = some ([.told event], q.toStage n id (.running rest)) := by
      simp [step, advance, ht]
    exact .of_advance h made fun h' =>
      onward_of_running h' (toStage_task ht _ _) gets
  | ended outcome => exact .here h ⟨outcome, ht⟩
  | _ => cases hopen

/-- The record of a job shows the end that its handler had for it. -/
def ShownAsFated (id : String) (run : List (Passage σ)) (q : Queue σ) : Prop :=
  ∃ job o, job.id = id ∧ Fated run job o ∧ ∃ k ∈ q.table.jobs, k.id = id ∧ o.Shows k

theorem Onward.finish {run : List (Passage σ)} {n : Nat} {id : String}
    (h : Onward settings shared run (Done n id)) :
    Onward settings shared run (ShownAsFated id) := by
  obtain ⟨more, q, hrun, hmore, o, htask⟩ := h
  obtain ⟨job, hid, hfated⟩ := hrun.faithful.fated _ (List.mem_of_getElem? htask) o rfl
  obtain ⟨signals, q', k, made, hk, hkid, hshows⟩ := ends_of_ended hrun htask ⟨0⟩
  refine ⟨more ++ [⟨q, .advance n ⟨0⟩, signals, q'⟩], q', ?_, ?_, ?_⟩
  · simpa using hrun.step made
  · intro x hx
    rcases List.mem_append.1 hx with hx | hx
    · exact hmore x hx
    · rw [List.mem_singleton.1 hx]
      exact ⟨_, .inr ⟨n, rfl⟩⟩
  · rw [← List.append_assoc]
    exact ⟨job, o, hid, hfated.append _, k, hk, hkid, hshows⟩

/-- A job that is worked on gets to its end by steps of the drain and of its task, whether or not
the drain shall stop. -/
theorem Run.finishes {run : List (Passage σ)} {q : Queue σ} (h : Run settings shared run q)
    {id : String} (works : q.table.Stands id .processing) (unheld : q.Unheld id) :
    Onward settings shared run (ShownAsFated id) := by
  rcases (h.reached.accounted.owned id).2 works with ⟨job, hjob, hid⟩ | ⟨t, ht, hid, hopen⟩
  · have hdrain : q.drain = .telling job := by
      unfold Drain.begun? at hjob
      split at hjob
      · rename_i hdrain
        rw [hdrain, Option.some.inj hjob]
      · cases hjob
    have made : q.step (.drainOn ⟨0⟩) = some ([.told (.started job.id)],
        { q with drain := .checking, tasks := q.tasks ++ [⟨job.id, .looking job⟩] }) := by
      simp [Queue.step, drainOn, hdrain]
    have gets := unheld.1 job hjob hid
    subst hid
    have htask : (q.tasks ++ [⟨job.id, .looking job⟩])[q.tasks.length]? =
      some ⟨job.id, .looking job⟩ := by simp
    exact .of_step h made ⟨_, .inl rfl⟩ fun h' => (onward_of_task h' htask rfl gets).finish
  · obtain ⟨n, hn⟩ := List.mem_iff_getElem?.1 ht
    obtain ⟨job, stage⟩ := t
    obtain rfl : job = id := hid
    exact (onward_of_task h hn hopen (unheld.2 _ ht rfl)).finish

/-! ## The law -/

/-- A queue that was told to stop begins one job more, at most. Told before its start it stays as it
was. Told later, the drain begins one job at most, and none where it is over; and whenever the queue
is told, a later step begins a job just where it takes it from waiting to being worked on; each job
that waits, or is asked for later, waits on, or is called off, or is the one that is begun; each job
that is worked on goes on to be, or ends as its handler had it; and it gets to that end by steps of
the drain and of its task alone, when the waits of its handler pass. -/
theorem one_job_begins_behind_shutdown {past later : List (Passage σ)} {p : Passage σ} {q : Queue σ}
    (h : Run settings shared (past ++ p :: later) q) (told : p.move = .shutdown) :
    (p.before.started = false → p.after = p.before) ∧
    (p.before.started = true → (begun later).length ≤ 1 ∧
      (p.before.drain = .stopped → begun later = [])) ∧
    (∀ x ∈ later, ∀ id, (∃ j, x.begun? = some j ∧ j.id = id) ↔
      x.before.table.Stands id .pending ∧ x.after.table.Stands id .processing) ∧
    (∀ id, WaitsSince p later id →
      q.table.Stands id .pending ∨ CalledOff later id ∨ ∃ j ∈ begun later, j.id = id) ∧
    (∀ id, p.before.table.Stands id .processing →
      q.table.Stands id .processing ∨ EndsIn (past ++ p :: later) later id) ∧
    ∀ id, q.table.Stands id .processing → q.Unheld id →
      Onward settings shared (past ++ p :: later) (ShownAsFated id) := by
  obtain ⟨hpast, made⟩ := h.at_step
  have hafter : p.after = p.before.shutdown := by
    rw [told] at made
    exact (Prod.mk.inj (Option.some.inj made)).2.symm
  have htable : p.after.table = p.before.table := by
    rw [hafter, shutdown]
    split <;> rfl
  refine ⟨fun hoff => ?_, fun hon => ?_, ?_, fun id => h.waits_on, ?_, fun id => h.finishes⟩
  · rw [hafter, shutdown, hpast.reached.accounted.off hoff]
  · have hdrain : p.before.drain ≠ .off := hpast.reached.alert.on hon
    have hstopping : p.after = { p.before with stopping := true } := by
      rw [hafter, shutdown]
      split
      · exact absurd ‹_› hdrain
      · rfl
    have hle := h.begun_le ⟨by rw [hstopping]; exact hon, by rw [hstopping]⟩
    have hone : p.after.drain.mayBegin.toNat ≤ 1 := Bool.toNat_le _
    refine ⟨by omega, fun hover => ?_⟩
    have hnot : p.after.drain.mayBegin = false := by
      rw [hstopping]
      simp [hover, Drain.mayBegin]
    rw [hnot, Bool.toNat_false] at hle
    exact List.length_eq_zero_iff.1 (by omega)
  · intro x hx id
    obtain ⟨before, after, rfl⟩ := List.append_of_mem hx
    have h' : Run settings shared ((past ++ p :: before) ++ x :: after) q := by simpa using h
    obtain ⟨hbefore, hmade⟩ := h'.at_step
    exact x.begun?_iff hmade hbefore.reached.ids_nodup id
  · intro id hprocessing
    exact h.works_on (htable ▸ hprocessing)

/-- Settings that ask for two slots. -/
def twoSlots : QueueSettings := ⟨2, ⟨0⟩, ⟨0⟩⟩

namespace Told

/-- Up to where the first job is worked on, and the drain waits for the second slot. -/
def untilAcquiring : List (Move Unit) :=
  [.start, .register "work" (fun _ s => (.finish .succeeded, s)),
    .enqueue "a" ⟨"work", "r", .null⟩ ⟨0⟩] ++ List.replicate 5 (.drainOn ⟨1⟩)

/-- The drain gets the slot, begins one of two jobs, and is over; the first job ends, and there is
another start. -/
def untilOver : List (Move Unit) :=
  [.enqueue "b" ⟨"work", "s", .null⟩ ⟨2⟩, .enqueue "c" ⟨"work", "t", .null⟩ ⟨2⟩] ++
    List.replicate 4 (.drainOn ⟨3⟩) ++ .start :: List.replicate 6 (.advance 0 ⟨4⟩)

theorem acquires : (walk? untilAcquiring (fresh twoSlots ())).isSome = true := by decide +kernel

def acquiring := (walk? untilAcquiring (fresh twoSlots ())).get acquires

theorem ends : (walk? untilOver acquiring.2.shutdown).isSome = true := by decide +kernel

def rest := (walk? untilOver acquiring.2.shutdown).get ends

/-- The queue is started only now, and two jobs are asked for. -/
def fromStart : List (Move Unit) :=
  [.start, .enqueue "a" ⟨"work", "r", .null⟩ ⟨0⟩, .enqueue "b" ⟨"work", "s", .null⟩ ⟨0⟩] ++
    List.replicate 7 (.drainOn ⟨1⟩)

theorem starts : (walk? fromStart (fresh twoSlots ()).shutdown).isSome = true := by decide +kernel

def started := (walk? fromStart (fresh twoSlots ()).shutdown).get starts

end Told

theorem one_job_begins_behind_shutdown_of_three :
    ∃ past p later q, Run twoSlots () (past ++ p :: later) q ∧ p.move = .shutdown ∧
      p.before.drain = .acquiring ∧ (begun later).map (·.id) = ["b"] ∧
      q.table.jobs.map (·.status) = [.completed, .processing, .pending] ∧
      (begun later).length ≤ 1 ∧ EndsIn (past ++ p :: later) later "a" ∧
      ∀ id, WaitsSince p later id →
        q.table.Stands id .pending ∨ CalledOff later id ∨ ∃ j ∈ begun later, j.id = id := by
  have hbefore : Run twoSlots () Told.acquiring.1 Told.acquiring.2 :=
    Run.fresh.walk (Option.some_get Told.acquires).symm
  let p : Passage Unit := ⟨Told.acquiring.2, .shutdown, [], Told.acquiring.2.shutdown⟩
  have h : Run twoSlots () (Told.acquiring.1 ++ p :: Told.rest.1) Told.rest.2 := by
    rw [List.append_cons]
    exact (hbefore.step rfl).walk (Option.some_get Told.ends).symm
  obtain ⟨-, hbegun, -, hwaits, hends, -⟩ := one_job_begins_behind_shutdown h rfl
  have hstatus : Told.rest.2.table.jobs.map (·.status) = [.completed, .processing, .pending] := by
    decide +kernel
  have hworks : p.before.table.Stands "a" .processing := ⟨_, .head _, rfl, rfl⟩
  have hnot : ¬ Told.rest.2.table.Stands "a" .processing := by
    intro hstands
    have hended : Told.rest.2.table.Stands "a" .completed := ⟨_, .head _, rfl, rfl⟩
    cases JobTable.stands_unique h.reached.ids_nodup hstands hended
  exact ⟨_, p, _, _, h, rfl, rfl, by decide +kernel, hstatus, (hbegun rfl).1,
    (hends "a" hworks).resolve_left hnot, hwaits⟩

/-- Told to stop before its start, a queue forgets it and begins both of its jobs. -/
theorem two_jobs_begin_behind_early_shutdown :
    ¬ ∀ (past later : List (Passage Unit)) (p : Passage Unit) (q : Queue Unit),
      Run twoSlots () (past ++ p :: later) q → p.move = .shutdown → (begun later).length ≤ 1 ∧
        (p.before.drain = .off ∨ p.before.drain = .stopped → begun later = []) := by
  intro final
  let p : Passage Unit := ⟨fresh twoSlots (), .shutdown, [], (fresh twoSlots ()).shutdown⟩
  have h : Run twoSlots () ([] ++ p :: Told.started.1) Told.started.2 :=
    (Run.fresh.step rfl).walk (Option.some_get Told.starts).symm
  have htwo : (begun Told.started.1).length = 2 := by decide +kernel
  obtain ⟨hone, -⟩ := final [] _ p _ h rfl
  omega

end Queue

end CodeSurvey
