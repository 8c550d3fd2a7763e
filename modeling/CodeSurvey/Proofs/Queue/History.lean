-- The table of a running queue. Whatever order the steps of callers, drain and
-- tasks come in, the table that a queue has is the one of a history of changes,
-- so the laws of histories hold for every queue.
import CodeSurvey.Proofs.Job.History
import CodeSurvey.Queue

namespace CodeSurvey.Queue

variable {σ : Type}

/-- The change of the table that a step asks for. -/
def tableMove? (m : Move σ) (q : Queue σ) : Option TableMove :=
  match m with
  | .enqueue id request now => some (.enqueue id request now)
  | .cancel id now => some (.cancel id now)
  | .report id value extra => some (.report id value extra)
  | .proceed n =>
    match q.calls[n]? with
    | some (.evicting ids now) => some (.evict q.settings.retention now ids)
    | _ => none
  | .drainOn now =>
    match q.drain with
    | .claiming => some (.claim now)
    | _ => none
  | .advance n now =>
    match q.tasks[n]? with
    | some ⟨job, .running (.report value extra _)⟩ => some (.report job value extra)
    | some ⟨job, .ended outcome⟩ => some (.finish job outcome now)
    | _ => none
  | _ => none

/-- The queues that can come of a fresh one, with the history of the table. -/
inductive Reached (settings : QueueSettings) (shared : σ) : History → Queue σ → Prop
  | fresh : Reached settings shared [] (fresh settings shared)
  | step {h : History} {q q' : Queue σ} {m : Move σ} {signals : List Signal}
      (before : Reached settings shared h q) (made : q.step m = some (signals, q')) :
      Reached settings shared (h ++ (q.tableMove? m).toList) q'

/-! ## One step -/

/-- The table after the change that a step asks for. -/
def tableAfter (q : Queue σ) (m : Move σ) : JobTable :=
  (q.tableMove? m).elim q.table q.table.play

/-- The ids that are given out after the change that a step asks for. -/
def issuedAfter (q : Queue σ) (m : Move σ) : List String :=
  q.issued ++ History.issued (q.tableMove? m).toList

@[simp] theorem ring_table (q : Queue σ) : q.ring.table = q.table := by
  unfold ring
  split <;> rfl

@[simp] theorem ring_issued (q : Queue σ) : q.ring.issued = q.issued := by
  unfold ring
  split <;> rfl

theorem proceed_table {q q' : Queue σ} {n : Nat} {signals : List Signal}
    (made : q.proceed n = some (signals, q')) :
    q'.table = q.tableAfter (.proceed n) ∧ q'.issued = q.issuedAfter (.proceed n) := by
  unfold proceed at made
  unfold tableAfter issuedAfter tableMove?
  cases hcall : q.calls[n]? with
  | none => simp [hcall] at made
  | some call =>
    cases call <;> simp only [hcall, Option.some.injEq, Prod.mk.injEq] at made ⊢ <;>
      obtain ⟨-, rfl⟩ := made <;>
      simp [JobTable.play]

theorem drainOn_table {q q' : Queue σ} {now : Instant} {signals : List Signal}
    (made : q.drainOn now = some (signals, q')) :
    q'.table = q.tableAfter (.drainOn now) ∧ q'.issued = q.issuedAfter (.drainOn now) := by
  unfold drainOn at made
  unfold tableAfter issuedAfter tableMove?
  cases hdrain : q.drain with
  | claiming =>
    simp only [hdrain] at made ⊢
    cases hclaim : q.table.claim now with
    | none =>
      simp only [hclaim, Option.some.injEq, Prod.mk.injEq] at made
      obtain ⟨-, rfl⟩ := made
      simp [JobTable.play, hclaim]
    | some claimed =>
      simp only [hclaim, Option.some.injEq, Prod.mk.injEq] at made
      obtain ⟨-, rfl⟩ := made
      simp [JobTable.play, hclaim]
  | acquiring =>
    simp only [hdrain] at made ⊢
    split at made
    · simp at made
    · simp only [Option.some.injEq, Prod.mk.injEq] at made
      obtain ⟨-, rfl⟩ := made
      simp
  | resting =>
    simp only [hdrain, Option.some.injEq, Prod.mk.injEq] at made ⊢
    obtain ⟨-, rfl⟩ := made
    split <;> simp
  | _ =>
    simp only [hdrain, Option.some.injEq, Prod.mk.injEq, reduceCtorEq] at made ⊢ <;>
      obtain ⟨-, rfl⟩ := made <;>
      simp

theorem drainOff_table {q q' : Queue σ} {signals : List Signal}
    (made : q.drainOff = some (signals, q')) : q'.table = q.table ∧ q'.issued = q.issued := by
  unfold drainOff at made
  split at made
  · split at made
    all_goals first
      | (simp only [Option.some.injEq, Prod.mk.injEq] at made
         obtain ⟨-, rfl⟩ := made
         exact ⟨rfl, rfl⟩)
      | simp at made
  · simp at made

theorem advance_table {q q' : Queue σ} {n : Nat} {now : Instant} {signals : List Signal}
    (made : q.advance n now = some (signals, q')) :
    q'.table = q.tableAfter (.advance n now) ∧ q'.issued = q.issuedAfter (.advance n now) := by
  unfold advance at made
  unfold tableAfter issuedAfter tableMove?
  cases htask : q.tasks[n]? with
  | none => simp [htask] at made
  | some task =>
    obtain ⟨job, stage⟩ := task
    cases stage with
    | looking j =>
      simp only [htask] at made ⊢
      split at made
      all_goals
        simp only [Option.some.injEq, Prod.mk.injEq] at made
        obtain ⟨-, rfl⟩ := made
        simp [toStage]
    | running work =>
      cases work with
      | finish outcome =>
        simp only [htask, Option.some.injEq, Prod.mk.injEq] at made ⊢
        obtain ⟨-, rfl⟩ := made
        simp [toStage]
      | report value extra rest =>
        simp only [htask] at made ⊢
        cases hreport : q.table.report job value extra with
        | none =>
          simp only [hreport, Option.some.injEq, Prod.mk.injEq] at made
          obtain ⟨-, rfl⟩ := made
          simp [toStage, JobTable.play, hreport]
        | some noted =>
          obtain ⟨t, event⟩ := noted
          cases event
          all_goals
            simp only [hreport, Option.some.injEq, Prod.mk.injEq] at made
            obtain ⟨-, rfl⟩ := made
            simp [toStage, JobTable.play, hreport]
      | await pass rest =>
        simp only [htask, Option.map_eq_some_iff, Prod.mk.injEq] at made ⊢
        obtain ⟨shared, -, -, rfl⟩ := made
        simp [toStage]
    | ended outcome =>
      simp only [htask] at made ⊢
      cases hfinish : q.table.finish now job outcome with
      | none =>
        simp only [hfinish, Option.some.injEq, Prod.mk.injEq] at made
        obtain ⟨-, rfl⟩ := made
        simp [toStage, JobTable.play, hfinish]
      | some ended =>
        simp only [hfinish, Option.some.injEq, Prod.mk.injEq] at made
        obtain ⟨-, rfl⟩ := made
        simp [toStage, JobTable.play, hfinish]
    | _ =>
      simp only [htask, Option.some.injEq, Prod.mk.injEq] at made ⊢
      obtain ⟨-, rfl⟩ := made
      simp [toStage]

/-- A step changes the table as it asks for, and gives out no id but that of a new job. -/
theorem step_table {q q' : Queue σ} {m : Move σ} {signals : List Signal}
    (made : q.step m = some (signals, q')) :
    q'.table = q.tableAfter m ∧ q'.issued = q.issuedAfter m := by
  cases m with
  | enqueue id request now =>
    simp only [step, enqueue] at made
    split at made
    · simp at made
    · simp only [Option.some.injEq, Prod.mk.injEq] at made
      obtain ⟨-, rfl⟩ := made
      exact ⟨rfl, rfl⟩
  | cancel id now =>
    simp only [step, cancel, Option.some.injEq] at made
    unfold tableAfter issuedAfter tableMove?
    split at made
    all_goals
      rename_i hcancel
      simp only [Prod.mk.injEq] at made
      obtain ⟨-, rfl⟩ := made
      simp [JobTable.play, hcancel]
  | report id value extra =>
    simp only [step, report, Option.some.injEq] at made
    unfold tableAfter issuedAfter tableMove?
    split at made
    all_goals
      rename_i hreport
      simp only [Prod.mk.injEq] at made
      obtain ⟨-, rfl⟩ := made
      simp [JobTable.play, hreport]
  | sweep now =>
    simp only [step, sweep, Option.some.injEq] at made
    split at made
    all_goals
      simp only [Prod.mk.injEq] at made
      obtain ⟨-, rfl⟩ := made
      simp [tableAfter, issuedAfter, tableMove?]
  | start =>
    simp only [step, start, Option.some.injEq, Prod.mk.injEq] at made
    obtain ⟨-, rfl⟩ := made
    split <;> simp [tableAfter, issuedAfter, tableMove?]
  | shutdown =>
    simp only [step, shutdown, Option.some.injEq, Prod.mk.injEq] at made
    obtain ⟨-, rfl⟩ := made
    split <;> simp [tableAfter, issuedAfter, tableMove?]
  | proceed n => exact proceed_table made
  | drainOn now => exact drainOn_table made
  | drainOff =>
    have h := drainOff_table made
    simpa [tableAfter, issuedAfter, tableMove?] using h
  | advance n now => exact advance_table made
  | _ =>
    simp only [step, register, Option.some.injEq, Prod.mk.injEq] at made
    obtain ⟨-, rfl⟩ := made
    simp [tableAfter, issuedAfter, tableMove?]

/-- Only an enqueue gives out an id. -/
theorem issuedAfter_eq (q : Queue σ) (m : Move σ) :
    q.issuedAfter m = q.issued ++ (match m with
      | .enqueue id _ _ => [id]
      | _ => []) := by
  have hnone : ∀ c ∈ q.tableMove? m, c.request? = none →
      History.issued (q.tableMove? m).toList = [] := by
    intro c hc hr
    rw [Option.mem_def] at hc
    rw [hc, Option.toList_some, History.issued_cons, hr]
    rfl
  unfold issuedAfter
  cases hc : q.tableMove? m with
  | none => cases m <;> simp_all [tableMove?]
  | some c =>
    rw [hc] at hnone
    cases m with
    | enqueue id request now =>
      cases hc
      simp
    | _ =>
      rw [hnone c rfl]
      simp only [tableMove?] at hc
      try split at hc
      all_goals simp at hc
      all_goals subst hc
      all_goals rfl

/-- A step that asks for a job gives it an id that no other job has. -/
theorem step_fresh {q q' : Queue σ} {m : Move σ} {signals : List Signal}
    (made : q.step m = some (signals, q')) (hn : q.issued.Nodup) : q'.issued.Nodup := by
  rw [(step_table made).2, issuedAfter_eq]
  cases m with
  | enqueue id request now =>
    simp only [step, enqueue] at made
    split at made
    · simp at made
    · rename_i hid
      rw [List.nodup_append]
      refine ⟨hn, List.nodup_singleton id, ?_⟩
      intro a ha b hb
      simp only [List.mem_singleton] at hb
      subst hb
      rintro rfl
      exact hid ha
  | _ => simpa using hn

/-! ## All queues -/

/-- The table of a queue is the one of its history, and so are the ids that it gave out, none of
them twice. -/
theorem Reached.table {settings : QueueSettings} {shared : σ} {h : History} {q : Queue σ}
    (reached : Reached settings shared h q) :
    q.table = h.table ∧ q.issued = h.issued ∧ h.Fresh := by
  induction reached with
  | fresh => exact ⟨rfl, rfl, List.nodup_nil⟩
  | @step h q q' m signals _ made ih =>
    obtain ⟨htable, hissued, fresh⟩ := ih
    obtain ⟨hafter, hgiven⟩ := step_table made
    have hgiven : q'.issued = History.issued (h ++ (q.tableMove? m).toList) := by
      rw [hgiven, issuedAfter, hissued, History.issued_append]
    refine ⟨?_, hgiven, ?_⟩
    · rw [hafter, tableAfter, htable]
      cases q.tableMove? m <;> simp
    · rw [History.Fresh, ← hgiven]
      exact step_fresh made (hissued ▸ fresh)

theorem Reached.ids_nodup {settings : QueueSettings} {shared : σ} {h : History} {q : Queue σ}
    (reached : Reached settings shared h q) : q.table.ids.Nodup := by
  obtain ⟨htable, -, fresh⟩ := reached.table
  rw [htable]
  exact h.ids_nodup fresh

end CodeSurvey.Queue
