-- The slots of a queue. Nobody counts the jobs that are worked on; each of them
-- belongs to the drain or to a task, and these hold a slot as long as the job has
-- not ended. The account of slots is kept by every step, whatever comes of a
-- handler, so there are never more jobs at work than slots.
import CodeSurvey.Proofs.Job.Begun
import CodeSurvey.Proofs.Queue.Run
import CodeSurvey.Proofs.Queue.Step
import Mathlib.Data.List.Perm.Subperm

namespace CodeSurvey.Queue

variable {σ : Type}

/-! ## Who holds what -/

/-- The slots that the drain and the tasks hold. -/
def held (q : Queue σ) : Nat := q.drain.holdsSlot.toNat + q.tasks.countP (·.stage.holdsSlot)

/-- The ids of the jobs that the drain has begun or that have a task, also those that have
ended. -/
def charges (q : Queue σ) : List String :=
  (q.drain.begun?.map (·.id)).toList ++ q.tasks.map (·.job)

theorem job_mem_charges {q : Queue σ} {t : Task σ} (ht : t ∈ q.tasks) : t.job ∈ q.charges :=
  List.mem_append_right _ (List.mem_map_of_mem (f := (·.job)) ht)

/-- The job has not ended, and the drain or a task has it. -/
def Owns (q : Queue σ) (id : String) : Prop :=
  (∃ job, q.drain.begun? = some job ∧ job.id = id) ∨
    ∃ t ∈ q.tasks, t.job = id ∧ t.stage.isOpen = true

/-- The account of a queue with its history. -/
structure Accounted (settings : QueueSettings) (h : History) (q : Queue σ) : Prop where
  off : q.started = false → q.drain = .off
  slots : q.free + q.held = slots settings
  distinct : q.charges.Nodup
  begun : ∀ id ∈ q.charges, h.Begun id
  /-- The jobs that are worked on are those that somebody has. -/
  owned : ∀ id, q.Owns id ↔ q.table.Stands id .processing

theorem accounted_fresh (settings : QueueSettings) (shared : σ) :
    Accounted settings [] (fresh settings shared) where
  off _ := rfl
  slots := rfl
  distinct := List.nodup_nil
  begun := by simp [charges, fresh, Drain.begun?]
  owned := by simp [Owns, fresh, Drain.begun?, JobTable.Stands, JobTable.empty]

/-! ## A place among the tasks -/

section Place

variable {q : Queue σ} {before after : List (Task σ)} {id : String} {stage : Stage σ}

theorem mem_charges_iff (place : q.tasks = before ++ ⟨id, stage⟩ :: after) {i : String} :
    i ∈ q.charges ↔ (∃ job, q.drain.begun? = some job ∧ job.id = i) ∨ i = id ∨
      ∃ t ∈ before ++ after, t.job = i := by
  simp only [charges, place, List.mem_append, Option.mem_toList, Option.map_eq_some_iff,
    List.mem_map, List.mem_cons, or_and_right, exists_or, exists_eq_left]
  grind

theorem owns_iff (place : q.tasks = before ++ ⟨id, stage⟩ :: after) {i : String} :
    q.Owns i ↔ (∃ job, q.drain.begun? = some job ∧ job.id = i) ∨
      (i = id ∧ stage.isOpen = true) ∨ ∃ t ∈ before ++ after, t.job = i ∧ t.stage.isOpen = true := by
  simp only [Owns, place, List.mem_append, List.mem_cons, or_and_right, exists_or, exists_eq_left]
  grind

theorem nodup_charges_iff (place : q.tasks = before ++ ⟨id, stage⟩ :: after) :
    q.charges.Nodup ↔ (id ∉ (q.drain.begun?.map (·.id)).toList ++ (before ++ after).map (·.job)) ∧
      ((q.drain.begun?.map (·.id)).toList ++ (before ++ after).map (·.job)).Nodup := by
  rw [charges, place, List.map_append, List.map_cons, ← List.append_assoc, List.nodup_middle,
    List.nodup_cons, List.append_assoc, ← List.map_append]

theorem held_place (place : q.tasks = before ++ ⟨id, stage⟩ :: after) :
    q.held = q.drain.holdsSlot.toNat + (before ++ after).countP (·.stage.holdsSlot) +
      stage.holdsSlot.toNat := by
  rw [held, place, List.countP_append, List.countP_append, List.countP_cons]
  cases stage.holdsSlot with
  | true =>
    simp
    omega
  | false => simp

/-- Nobody else has the job of a task. -/
theorem Accounted.alone {settings : QueueSettings} {h : History} (acc : Accounted settings h q)
    (place : q.tasks = before ++ ⟨id, stage⟩ :: after) :
    (∀ job, q.drain.begun? = some job → job.id ≠ id) ∧ ∀ t ∈ before ++ after, t.job ≠ id := by
  have hnot := ((nodup_charges_iff place).1 acc.distinct).1
  constructor
  · rintro job hjob rfl
    exact hnot (by simp [hjob])
  · rintro t ht rfl
    exact hnot (List.mem_append_right _ (List.mem_map_of_mem (f := (·.job)) ht))

end Place

/-! ## What a step asks of the table -/

/-- The jobs that are worked on after a step. -/
theorem step_processing {q q' : Queue σ} {m : Move σ} {signals : List Signal}
    (made : q.step m = some (signals, q')) (hn : q.table.ids.Nodup) (id : String) :
    q'.table.Stands id .processing ↔
      (q.table.Stands id .processing ∧
        ∀ outcome now, q.tableMove? m ≠ some (.finish id outcome now)) ∨
      ∃ now j, q.tableMove? m = some (.claim now) ∧ q.table.next? = some j ∧ j.id = id := by
  rw [(step_table made).1, tableAfter]
  cases hm : q.tableMove? m with
  | none => simp
  | some c =>
    have := JobTable.processing_play hn c id
    simpa using this

/-- Only the drain claims a job. -/
theorem claim_of_tableMove? {q : Queue σ} {m : Move σ} {now : Instant}
    (h : q.tableMove? m = some (.claim now)) : m = .drainOn now ∧ q.drain = .claiming := by
  cases m with
  | drainOn t =>
    simp only [tableMove?] at h
    split at h
    · rename_i hdrain
      cases h
      exact ⟨rfl, hdrain⟩
    · cases h
  | proceed n =>
    simp only [tableMove?] at h
    split at h <;> cases h
  | advance n t =>
    simp only [tableMove?] at h
    split at h <;> cases h
  | _ => cases h

/-- The step neither begins nor ends a job. -/
def Quiet (q : Queue σ) (m : Move σ) : Prop :=
  (∀ now, q.tableMove? m = some (.claim now) → q.table.next? = none) ∧
    ∀ id outcome now, q.tableMove? m ≠ some (.finish id outcome now)

theorem processing_quiet {q q' : Queue σ} {m : Move σ} {signals : List Signal}
    (made : q.step m = some (signals, q')) (hn : q.table.ids.Nodup) (hquiet : q.Quiet m)
    (id : String) : q'.table.Stands id .processing ↔ q.table.Stands id .processing := by
  rw [step_processing made hn, and_iff_left fun outcome now => hquiet.2 id outcome now,
    or_iff_left_iff_imp]
  rintro ⟨now, j, hm, hnext, -⟩
  rw [hquiet.1 now hm] at hnext
  cases hnext

theorem quiet_asked {q q' : Queue σ} {m : Move σ} {signals : List Signal}
    (h : Asked q m signals q') : q.Quiet m := by
  cases h <;> simp [Quiet, tableMove?]

theorem quiet_proceed (q : Queue σ) (n : Nat) : q.Quiet (.proceed n) := by
  unfold Quiet tableMove?
  cases hcall : q.calls[n]? with
  | none => simp [hcall]
  | some call => cases call <;> simp [hcall]

/-- A task ends its job in one step only. -/
theorem quiet_advance {q : Queue σ} {n : Nat} {id : String} {stage : Stage σ}
    (htask : q.tasks[n]? = some ⟨id, stage⟩) (h : ∀ outcome, stage ≠ .ended outcome)
    (now : Instant) : q.Quiet (.advance n now) := by
  unfold Quiet tableMove?
  cases stage with
  | running work => cases work <;> simp [htask]
  | ended outcome => exact absurd rfl (h outcome)
  | _ => simp [htask]

theorem quiet_drainOn {q : Queue σ} {d : Drain} (at_ : q.drain = d)
    (h : d = .claiming → q.table.next? = none) (now : Instant) : q.Quiet (.drainOn now) := by
  subst at_
  unfold Quiet tableMove?
  cases hdrain : q.drain <;> simp_all

/-! ## One step -/

namespace Accounted

variable {settings : QueueSettings} {shared : σ} {h : History} {q q' : Queue σ} {m : Move σ}
  {signals : List Signal}

/-- A quiet step keeps the account when drain and tasks have no other jobs behind it, the same of
them open, and as many slots are held as were taken. -/
theorem quiet (acc : Accounted settings h q) (reached : Reached settings shared h q)
    (made : q.step m = some (signals, q')) (hquiet : q.Quiet m)
    (off : q'.started = false → q'.drain = .off) (hslots : q'.free + q'.held = q.free + q.held)
    (hcharges : q'.charges.Sublist q.charges) (howns : ∀ id, q'.Owns id ↔ q.Owns id) :
    Accounted settings (h ++ (q.tableMove? m).toList) q' := by
  have hn := reached.ids_nodup
  refine ⟨off, hslots.trans acc.slots, acc.distinct.sublist hcharges, ?_, ?_⟩
  · exact fun id hid => (acc.begun id (hcharges.subset hid)).append _
  · intro id
    rw [howns, acc.owned, processing_quiet made hn hquiet]

/-- A queue that was not started has its drain off, so a drain that is elsewhere was started. -/
theorem on (acc : Accounted settings h q) (hon : q.drain ≠ .off) : q.started = true := by
  cases hs : q.started with
  | true => rfl
  | false => exact absurd (acc.off hs) hon

/-- A quiet step keeps the account when it leaves drain and tasks. -/
theorem untouched (acc : Accounted settings h q) (reached : Reached settings shared h q)
    (made : q.step m = some (signals, q')) (hquiet : q.Quiet m) (hstarted : q'.started = q.started)
    (hfree : q'.free = q.free) (hdrain : q'.drain = q.drain) (htasks : q'.tasks = q.tasks) :
    Accounted settings (h ++ (q.tableMove? m).toList) q' := by
  refine acc.quiet reached made hquiet ?_ ?_ ?_ ?_
  · rw [hstarted, hdrain]
    exact acc.off
  · rw [held, held, hfree, hdrain, htasks]
  · rw [charges, charges, hdrain, htasks]
  · intro id
    rw [Owns, Owns, hdrain, htasks]

/-- So it does when the drain goes from one place to another and has no job at either. -/
theorem goes {d d' : Drain} (acc : Accounted settings h q) (reached : Reached settings shared h q)
    (made : q.step m = some (signals, q')) (hquiet : q.Quiet m) (at_ : q.drain = d)
    (there : q'.drain = d') (hstarted : q'.started = true) (htasks : q'.tasks = q.tasks)
    (hbegun : d.begun? = none ∧ d'.begun? = none)
    (hslots : q'.free + d'.holdsSlot.toNat = q.free + d.holdsSlot.toNat) :
    Accounted settings (h ++ (q.tableMove? m).toList) q' := by
  obtain ⟨hnone, hnone'⟩ := hbegun
  subst at_ there
  refine acc.quiet reached made hquiet (by simp [hstarted]) ?_ ?_ ?_
  · rw [held, held, htasks]
    omega
  · rw [charges, charges, hnone, hnone', htasks]
  · intro id
    rw [Owns, Owns, hnone, hnone', htasks]

theorem asked (acc : Accounted settings h q) (reached : Reached settings shared h q)
    (made : q.step m = some (signals, q')) (hasked : Asked q m signals q') :
    Accounted settings (h ++ (q.tableMove? m).toList) q' := by
  have hquiet := quiet_asked hasked
  cases hasked with
  | started first =>
    exact acc.goes reached made hquiet (acc.off first) rfl rfl rfl ⟨rfl, rfl⟩ rfl
  | _ => exact acc.untouched reached made hquiet rfl rfl rfl rfl

theorem proceeded {before after : List Call} {call : Call} (acc : Accounted settings h q)
    (reached : Reached settings shared h q)
    (made : q.step (.proceed before.length) = some (signals, q'))
    (hproceeded : Proceeded q before after call signals q') :
    Accounted settings (h ++ (q.tableMove? (.proceed before.length)).toList) q' := by
  have hquiet := q.quiet_proceed before.length
  cases hproceeded with
  | rings hrung =>
    cases hrung with
    | wakes at_ =>
      exact acc.goes reached made hquiet at_ rfl (acc.on (by simp [show q.drain = _ from at_])) rfl
        ⟨rfl, rfl⟩ rfl
    | later => exact acc.untouched reached made hquiet rfl rfl rfl rfl
  | _ => exact acc.untouched reached made hquiet rfl rfl rfl rfl

/-- The next job waits, so it is none of those that were begun. -/
theorem next_not_charged (acc : Accounted settings h q) (reached : Reached settings shared h q)
    {j : Job} (next : q.table.next? = some j) : j.id ∉ q.charges := by
  obtain ⟨htable, -, fresh⟩ := reached.table
  obtain ⟨hj, hs, -⟩ := JobTable.next?_eq_some next
  intro hin
  exact (History.away_of_begun fresh (acc.begun _ hin)).begun (htable ▸ ⟨j, hj, rfl, hs⟩)

theorem drained {now : Instant} (acc : Accounted settings h q)
    (reached : Reached settings shared h q)
    (made : q.step (.drainOn now) = some (signals, q')) (hdrained : Drained q now signals q') :
    Accounted settings (h ++ (q.tableMove? (.drainOn now)).toList) q' := by
  obtain ⟨htable, -, fresh⟩ := reached.table
  have hn := reached.ids_nodup
  cases hdrained with
  | stops at_ | goesOn at_ | hears at_ | waits at_ | wakes at_ =>
    exact acc.goes reached made (quiet_drainOn at_ (by simp) now) at_ rfl (acc.on (by simp [at_]))
      rfl ⟨rfl, rfl⟩ rfl
  | acquires at_ some_ =>
    refine acc.goes reached made (quiet_drainOn at_ (by simp) now) at_ rfl (acc.on (by simp [at_]))
      rfl ⟨rfl, rfl⟩ ?_
    simp [Drain.holdsSlot]
    omega
  | findsNone at_ none_ =>
    have hnext : q.table.next? = none := by simpa [JobTable.claim] using none_
    exact acc.goes reached made (quiet_drainOn at_ (fun _ => hnext) now) at_ rfl
      (acc.on (by simp [at_])) rfl ⟨rfl, rfl⟩ rfl
  | claims at_ claimed =>
    have hmove : q.tableMove? (.drainOn now) = some (.claim now) := by simp [tableMove?, at_]
    obtain ⟨j, hnext, hj⟩ := Option.map_eq_some_iff.1 claimed
    obtain ⟨rfl, -⟩ := Prod.mk.inj hj
    have hbegun : History.Begun (h ++ [.claim now]) j.id := History.begun_of_claim (htable ▸ hnext)
    rw [hmove]
    refine ⟨?_, ?_, ?_, ?_, fun id => ?_⟩
    · simp [acc.on (by simp [at_])]
    · simpa [held, at_, Drain.holdsSlot] using acc.slots
    · have hnew := acc.next_not_charged reached hnext
      have hdistinct := acc.distinct
      simp only [charges, at_, Drain.begun?, Option.map_none, Option.toList_none,
        List.nil_append] at hnew hdistinct
      exact List.nodup_cons.2 ⟨hnew, hdistinct⟩
    · intro id hid
      simp only [charges, Drain.begun?, Option.map_some, Option.toList_some, List.singleton_append,
        List.mem_cons] at hid
      rcases hid with rfl | hid
      · exact hbegun
      · exact (acc.begun id (List.mem_append_right _ hid)).append _
    · rw [step_processing made hn, hmove, hnext, ← acc.owned]
      simp [Owns, at_, Drain.begun?, Job.begun, or_comm]
  | @dispatches job at_ =>
    have hperm : (q.tasks.map (·.job) ++ [job.id]).Perm q.charges := by
      rw [charges, at_]
      exact List.perm_append_comm
    have hcharges : charges { q with
        drain := .checking
        tasks := q.tasks ++ [⟨job.id, .looking job⟩] } = q.tasks.map (·.job) ++ [job.id] := by
      simp [charges, Drain.begun?]
    have hquiet := quiet_drainOn at_ (by simp) now
    refine ⟨?_, ?_, ?_, ?_, fun id => ?_⟩
    · simp [acc.on (by simp [at_])]
    · have := acc.slots
      simp only [held, at_, Drain.holdsSlot, List.countP_append, List.countP_singleton,
        Stage.holdsSlot, Bool.toNat_true, Bool.toNat_false, if_true] at this ⊢
      omega
    · rw [hcharges, hperm.nodup_iff]
      exact acc.distinct
    · intro id hid
      rw [hcharges, hperm.mem_iff] at hid
      exact (acc.begun id hid).append _
    · rw [processing_quiet made hn hquiet, ← acc.owned]
      simp [Owns, at_, Drain.begun?, or_and_right, exists_or, Stage.isOpen, or_comm]

theorem drainedOff (acc : Accounted settings h q) (reached : Reached settings shared h q)
    (made : q.step .drainOff = some (signals, q')) (hdrained : DrainedOff q signals q') :
    Accounted settings (h ++ (q.tableMove? .drainOff).toList) q' := by
  have hquiet : q.Quiet .drainOff := by simp [Quiet, tableMove?]
  cases hdrained with
  | withoutSlot at_ =>
    exact acc.goes reached made hquiet at_ rfl (acc.on (by simp [at_])) rfl ⟨rfl, rfl⟩ rfl
  | withSlot at_ =>
    rcases at_ with at_ | at_ | at_
    all_goals
      exact acc.goes reached made hquiet at_ rfl (acc.on (by simp [at_])) rfl ⟨rfl, rfl⟩ rfl

/-- A task goes to another stage that is as open and holds as many slots. -/
theorem restaged {before after : List (Task σ)} {id : String} {stage stage' : Stage σ}
    (acc : Accounted settings h q) (reached : Reached settings shared h q)
    (made : q.step m = some (signals, q')) (hquiet : q.Quiet m)
    (place : q.tasks = before ++ ⟨id, stage⟩ :: after)
    (place' : q'.tasks = before ++ ⟨id, stage'⟩ :: after) (hstarted : q'.started = q.started)
    (hdrain : q'.drain = q.drain) (hopen : stage'.isOpen = stage.isOpen)
    (hslots : q'.free + stage'.holdsSlot.toNat = q.free + stage.holdsSlot.toNat) :
    Accounted settings (h ++ (q.tableMove? m).toList) q' := by
  refine acc.quiet reached made hquiet ?_ ?_ ?_ ?_
  · rw [hstarted, hdrain]
    exact acc.off
  · rw [held_place place, held_place place', hdrain]
    omega
  · rw [charges, charges, place, place', hdrain]
    simp
  · intro i
    rw [owns_iff place, owns_iff place', hdrain, hopen]

/-- The job of a task that has ended is let go. -/
theorem finished {before after : List (Task σ)} {id : String} {stage : Stage σ} {outcome : Outcome}
    {now : Instant} (acc : Accounted settings h q) (reached : Reached settings shared h q)
    (made : q.step m = some (signals, q')) (hm : q.tableMove? m = some (.finish id outcome now))
    (place : q.tasks = before ++ ⟨id, .ended outcome⟩ :: after)
    (place' : q'.tasks = before ++ ⟨id, stage⟩ :: after) (hstarted : q'.started = q.started)
    (hdrain : q'.drain = q.drain) (hopen : stage.isOpen = false) (hslot : stage.holdsSlot = true)
    (hfree : q'.free = q.free) : Accounted settings (h ++ (q.tableMove? m).toList) q' := by
  have hn := reached.ids_nodup
  have hcharges : q'.charges = q.charges := by simp [charges, place, place', hdrain]
  obtain ⟨hdrainOther, hother⟩ := acc.alone place
  refine ⟨?_, ?_, hcharges ▸ acc.distinct, ?_, fun i => ?_⟩
  · rw [hstarted, hdrain]
    exact acc.off
  · rw [← acc.slots, held_place place, held_place place', hdrain, hslot, hfree]
    rfl
  · rw [hcharges]
    exact fun id hid => (acc.begun id hid).append _
  · rw [step_processing made hn, hm, ← acc.owned, owns_iff place, owns_iff place', hdrain, hopen]
    have hkeep : (∀ o t, some (TableMove.finish id outcome now) ≠ some (.finish i o t)) ↔
        i ≠ id := by
      simp [eq_comm]
    have hnone : ∀ t, some (TableMove.finish id outcome now) ≠ some (.claim t) := by simp
    simp only [hkeep, Bool.false_eq_true, and_false, false_or]
    constructor
    · rintro (⟨job, hjob, rfl⟩ | ⟨t, ht, rfl, hto⟩)
      · exact .inl ⟨.inl ⟨job, hjob, rfl⟩, hdrainOther job hjob⟩
      · exact .inl ⟨.inr (.inr ⟨t, ht, rfl, hto⟩), hother t ht⟩
    · rintro (⟨hjob | ⟨rfl, -⟩ | ht, hne⟩ | ⟨t, j, hclaim, -⟩)
      · exact .inl hjob
      · exact absurd rfl hne
      · exact .inr ht
      · exact absurd hclaim (hnone t)

theorem advanced {before after : List (Task σ)} {id : String} {stage : Stage σ} {now : Instant}
    (acc : Accounted settings h q) (reached : Reached settings shared h q)
    (made : q.step (.advance before.length now) = some (signals, q'))
    (place : q.tasks = before ++ ⟨id, stage⟩ :: after)
    (hadvanced : Advanced q before after id now stage signals q') :
    Accounted settings (h ++ (q.tableMove? (.advance before.length now)).toList) q' := by
  have htask : q.tasks[before.length]? = some ⟨id, stage⟩ := by simp [place]
  have hquiet := quiet_advance htask
  cases hadvanced with
  | unhandled none_ | handed found =>
    exact acc.restaged reached made (hquiet (by simp) now) place rfl rfl rfl rfl rfl
  | worked works =>
    obtain ⟨hexec, outcome, hfate, hfate'⟩ := works.going
    have hopen := Stage.isOpen_of_fate? hfate
    have hopen' := Stage.isOpen_of_fate? hfate'
    refine acc.restaged reached made (hquiet ?_ now) place rfl rfl rfl (hopen'.trans hopen.symm) ?_
    · rintro o rfl
      cases hexec
    · rw [Stage.holdsSlot_of_isOpen hopen, Stage.holdsSlot_of_isOpen hopen']
      rfl
  | told | released =>
    exact acc.restaged reached made (hquiet (by simp) now) place rfl rfl rfl rfl rfl
  | @finished outcome t event finish =>
    have hm : q.tableMove? (.advance before.length now) = some (.finish id outcome now) := by
      simp [tableMove?, htask]
    exact acc.finished reached made hm place rfl rfl rfl rfl rfl rfl
  | @notFinished outcome refused =>
    -- the job of the task is worked on, so it can be ended
    have hn := reached.ids_nodup
    obtain ⟨j, hj, hid, hs⟩ := (acc.owned id).1 ((owns_iff place).2 (.inr (.inl ⟨rfl, rfl⟩)))
    have hnone : q.table.findIn? .processing id = none := by
      simpa [JobTable.finish] using refused
    exact absurd hs (JobTable.findIn?_eq_none hn hnone j hj hid)
  | gone rung =>
    obtain ⟨hstarted, hfree, htasks, hbegun, hslot, hoff⟩ := rung.drain
    refine acc.quiet reached made (hquiet (by simp) now) ?_ ?_ ?_ ?_
    · rw [hstarted, hoff]
      exact acc.off
    · rw [held_place place, held, hfree, hslot, htasks]
      rfl
    · rw [charges, charges, hbegun, htasks, place]
      exact (((List.sublist_cons_self ..).append_left _).map _).append_left _
    · intro i
      rw [owns_iff place, Owns, hbegun, htasks]
      simp [Stage.isOpen]

/-- Every step keeps the account. -/
theorem step (acc : Accounted settings h q) (reached : Reached settings shared h q)
    (made : q.step m = some (signals, q')) :
    Accounted settings (h ++ (q.tableMove? m).toList) q' := by
  cases step_moved made with
  | asked hasked => exact acc.asked reached made hasked
  | proceeded _ hproceeded => exact acc.proceeded reached made hproceeded
  | drained hdrained => exact acc.drained reached made hdrained
  | drainedOff _ hdrained => exact acc.drainedOff reached made hdrained
  | advanced place hadvanced => exact acc.advanced reached made place hadvanced

end Accounted

/-- Every queue keeps its account. -/
theorem Reached.accounted {settings : QueueSettings} {shared : σ} {h : History} {q : Queue σ}
    (reached : Reached settings shared h q) : Accounted settings h q := by
  induction reached with
  | fresh => exact accounted_fresh settings shared
  | step before made ih => exact ih.step before made

/-! ## The law -/

theorem executing_le_held (q : Queue σ) : q.executing ≤ q.held := by
  have : q.executing ≤ q.tasks.countP (·.stage.holdsSlot) :=
    List.countP_mono_left fun t _ h => Stage.holdsSlot_of_isExecuting h
  unfold held
  omega

/-- The jobs that are worked on have different owners, each of which holds a slot. -/
theorem Accounted.processing_le_held {settings : QueueSettings} {h : History} {q : Queue σ}
    (acc : Accounted settings h q) (hn : q.table.ids.Nodup) : q.table.processing ≤ q.held := by
  let owners := q.drain.begun?.toList.map (·.id) ++ (q.tasks.filter (·.stage.isOpen)).map (·.job)
  have hids : ((q.table.jobs.filter (·.status = .processing)).map (·.id)).Nodup :=
    hn.sublist (List.filter_sublist.map _)
  have hsub : (q.table.jobs.filter (·.status = .processing)).map (·.id) ⊆ owners := by
    intro id hid
    obtain ⟨j, hj, rfl⟩ := List.mem_map.1 hid
    obtain ⟨hj, hs⟩ := List.mem_filter.1 hj
    have hs : j.status = .processing := by simpa using hs
    rcases (acc.owned j.id).2 ⟨j, hj, rfl, hs⟩ with ⟨job, hjob, hid⟩ | ⟨t, ht, hid, ho⟩
    · exact List.mem_append_left _ (by simp [hjob, hid])
    · exact List.mem_append_right _ (List.mem_map.2 ⟨t, List.mem_filter.2 ⟨ht, ho⟩, hid⟩)
  have hdrain : q.drain.begun?.toList.length ≤ q.drain.holdsSlot.toNat := by
    cases q.drain <;> simp [Drain.begun?, Drain.holdsSlot]
  have htasks : (q.tasks.filter (·.stage.isOpen)).length ≤ q.tasks.countP (·.stage.holdsSlot) := by
    rw [← List.countP_eq_length_filter]
    exact List.countP_mono_left fun t _ ho => Stage.holdsSlot_of_isOpen ho
  calc q.table.processing
      = ((q.table.jobs.filter (·.status = .processing)).map (·.id)).length := by
        rw [JobTable.processing, List.countP_eq_length_filter, List.length_map]
    _ ≤ owners.length := (List.subperm_of_subset hids hsub).length_le
    _ = q.drain.begun?.toList.length + (q.tasks.filter (·.stage.isOpen)).length := by
        simp [owners]
    _ ≤ q.held := by
        unfold held
        omega

/-- The job of a task that has told its end, or is about to, has ended. -/
theorem Reached.over {settings : QueueSettings} {shared : σ} {h : History} {q : Queue σ}
    (reached : Reached settings shared h q) {t : Task σ} (ht : t ∈ q.tasks)
    (closed : t.stage.isOpen = false) :
    ¬ q.table.Stands t.job .processing ∧ ¬ q.table.Stands t.job .pending := by
  have acc := reached.accounted
  obtain ⟨htable, -, fresh⟩ := reached.table
  obtain ⟨before, after, place⟩ := List.append_of_mem ht
  obtain ⟨hdrain, hother⟩ := acc.alone place
  constructor
  · intro hs
    have howner := (owns_iff place).1 ((acc.owned _).2 hs)
    rcases howner with ⟨job, hjob, hid⟩ | ⟨-, ho⟩ | ⟨t', ht', hid, -⟩
    · exact hdrain job hjob hid
    · rw [closed] at ho
      cases ho
    · exact hother t' ht' hid
  · have hin : t.job ∈ q.charges := (mem_charges_iff place).2 (.inr (.inl rfl))
    rw [htable]
    exact (History.away_of_begun fresh (acc.begun _ hin)).begun

/-- There are never more jobs at work than slots. Whatever callers, drain and tasks have done, and
whatever came of the handlers, a slot is free or it is held by the drain or by a task; and neither
the jobs that are worked on nor the handlers that are at work are more than the slots. -/
theorem at_most_slots_at_once {settings : QueueSettings} {shared : σ} {h : History} {q : Queue σ}
    (reached : Reached settings shared h q) :
    q.free + q.held = max 1 settings.concurrency.toNat ∧
      q.table.processing ≤ max 1 settings.concurrency.toNat ∧
      q.executing ≤ max 1 settings.concurrency.toNat := by
  have acc := reached.accounted
  have hslots : q.free + q.held = max 1 settings.concurrency.toNat := acc.slots
  have hn := reached.ids_nodup
  have hprocessing := acc.processing_le_held hn
  have hexecuting := q.executing_le_held
  omega

/-- Settings that ask for no slot, so that there is one. -/
def oneSlot : QueueSettings := ⟨0, ⟨0⟩, ⟨0⟩⟩

/-- A handler panics over the first of two jobs, its task gives the slot back, and the second job
is handed to the handler. -/
def panicThenNext : List (Move Unit) :=
  [.start, .start, .register "work" (fun _ s => (.finish (.panicked none), s)),
    .enqueue "a" ⟨"work", "r", .null⟩ ⟨0⟩, .enqueue "b" ⟨"work", "s", .null⟩ ⟨1⟩,
    .drainOn ⟨2⟩, .drainOn ⟨2⟩, .drainOn ⟨2⟩, .drainOn ⟨2⟩, .drainOn ⟨3⟩,
    .advance 0 ⟨4⟩, .advance 0 ⟨4⟩, .advance 0 ⟨4⟩, .advance 0 ⟨4⟩, .advance 0 ⟨4⟩, .advance 0 ⟨5⟩,
    .drainOn ⟨6⟩, .drainOn ⟨6⟩, .drainOn ⟨6⟩, .advance 0 ⟨7⟩]

theorem at_most_slots_after_panic :
    ∃ h q, Reached oneSlot () h q ∧ q.table.jobs.map (·.status) = [.failed, .processing] ∧
      q.executing = 1 ∧ q.free + q.held = 1 ∧ q.table.processing ≤ 1 ∧ q.executing ≤ 1 :=
  have all : (walk? panicThenNext (fresh oneSlot ())).isSome := by rfl
  have reached := (Run.fresh.walk (Option.some_get all).symm).reached
  ⟨_, _, reached, by rfl, by rfl, at_most_slots_at_once reached⟩

end CodeSurvey.Queue
