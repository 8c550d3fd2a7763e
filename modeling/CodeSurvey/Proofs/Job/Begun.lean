-- Jobs that were begun. A job is begun by a claim, once; from then on it never
-- waits again and cannot be called off. Which jobs are worked on changes by a
-- claim and by an end, and by nothing else.
import CodeSurvey.Proofs.Job.Lifecycle

namespace CodeSurvey

/-! ## How jobs stand -/

namespace JobTable

/-- A job with the id is in the table, and has the status. -/
def Stands (t : JobTable) (id : String) (status : JobStatus) : Prop :=
  ∃ j ∈ t.jobs, j.id = id ∧ j.status = status

theorem stands_unique {t : JobTable} (hn : t.ids.Nodup) {id : String} {status other : JobStatus}
    (h : t.Stands id status) (h' : t.Stands id other) : status = other := by
  obtain ⟨j, hj, hid, rfl⟩ := h
  obtain ⟨k, hk, hid', rfl⟩ := h'
  rw [eq_of_id hn hj hk (hid.trans hid'.symm)]

theorem stands_put {t : JobTable} (hn : t.ids.Nodup) {j k : Job} (hj : j ∈ t.jobs)
    (hid : k.id = j.id) {id : String} {status : JobStatus} :
    (t.put k).Stands id status ↔ if id = j.id then k.status = status else t.Stands id status := by
  unfold Stands
  split
  · rename_i heq
    subst heq
    constructor
    · rintro ⟨i, hi, hij, rfl⟩
      rcases (mem_put hn hj hid).1 hi with rfl | ⟨hi, hne⟩
      · rfl
      · exact absurd (eq_of_id hn hi hj hij) hne
    · intro hs
      exact ⟨k, (mem_put hn hj hid).2 (.inl rfl), hid, hs⟩
  · rename_i hne
    constructor
    · rintro ⟨i, hi, rfl, hs⟩
      rcases (mem_put hn hj hid).1 hi with rfl | ⟨hi, -⟩
      · exact absurd hid hne
      · exact ⟨i, hi, rfl, hs⟩
    · rintro ⟨i, hi, rfl, hs⟩
      refine ⟨i, (mem_put hn hj hid).2 (.inr ⟨hi, ?_⟩), rfl, hs⟩
      rintro rfl
      exact hne rfl

theorem status_ended_ne (j : Job) (now : Instant) (o : Outcome) :
    (j.ended now o).status ≠ .processing ∧ (j.ended now o).status ≠ .pending := by
  unfold Job.ended
  cases o.failure? <;> simp

@[simp] theorem id_ended (j : Job) (now : Instant) (o : Outcome) : (j.ended now o).id = j.id := by
  unfold Job.ended
  cases o.failure? <;> rfl

/-- The jobs that are worked on after a change: those from before but for one that ends, and the
one that is claimed. -/
theorem processing_play {t : JobTable} (hn : t.ids.Nodup) (m : TableMove) (id : String) :
    (t.play m).Stands id .processing ↔
      (t.Stands id .processing ∧ ∀ outcome now, m ≠ .finish id outcome now) ∨
        ∃ now j, m = .claim now ∧ t.next? = some j ∧ j.id = id := by
  have hp := played hn m
  generalize t.play m = t' at hp
  cases hp with
  | @pushed id' request now =>
    have hpush : (t.push (.ofRequest id' now request)).Stands id .processing ↔
        t.Stands id .processing := by
      simp [Stands, push, or_and_right, exists_or, Job.ofRequest]
    rw [hpush]
    simp
  | @turned m j k mem turn =>
    rw [stands_put hn mem turn.same.1]
    have hstands : t.Stands j.id j.status := ⟨j, mem, rfl, rfl⟩
    cases turn with
    | withdrawn pending =>
      split
      · rename_i hid
        subst hid
        have : ¬ t.Stands j.id .processing := fun h => by
          simpa [pending] using stands_unique hn h hstands
        simp [Job.withdrawn, this]
      · simp
    | reported processing =>
      rw [processing] at hstands
      split
      · rename_i hid
        subst hid
        simp [Job.reported, processing, hstands]
      · simp
    | @begun _ now next =>
      split
      · rename_i hid
        subst hid
        simp [Job.begun, next]
      · rename_i hid
        simp [next, Ne.symm hid]
    | @ended _ outcome now processing =>
      split
      · rename_i hid
        subst hid
        simp [(status_ended_ne j now outcome).1]
      · rename_i hid
        simp [Ne.symm hid]
  | @evicted keep now ids =>
    have hkept : ∀ j : Job, j.status = .processing → j.isExpired keep now = false := by
      intro j hs
      simp [Job.isExpired, hs, JobStatus.isTerminal]
    constructor
    · rintro ⟨j, hj, hid, hs⟩
      exact .inl ⟨⟨j, (List.mem_filter.1 hj).1, hid, hs⟩, by simp⟩
    · rintro (⟨⟨j, hj, hid, hs⟩, -⟩ | ⟨now', j, hm, -⟩)
      · exact ⟨j, List.mem_filter.2 ⟨hj, by simp [hkept j hs]⟩, hid, hs⟩
      · cases hm
  | refused refuses =>
    cases m with
    | claim now =>
      have hnone : t.next? = none := by simpa [Refuses, JobTable.claim] using refuses
      simp [hnone]
    | finish id' outcome now =>
      have hnone : t.findIn? .processing id' = none := by
        simpa [Refuses, JobTable.finish] using refuses
      by_cases hid : id' = id
      · subst hid
        have : ¬ t.Stands id' .processing := by
          rintro ⟨j, hj, hj', hs⟩
          exact findIn?_eq_none hn hnone j hj hj' hs
        simp [this]
      · simp [hid]
    | _ => simp

/-- No job comes to wait but one that is asked for. -/
theorem pending_of_play {t : JobTable} (hn : t.ids.Nodup) {m : TableMove} {j : Job}
    (hj : j ∈ (t.play m).jobs) (hs : j.status = .pending) :
    j ∈ t.jobs ∨ ∃ request now, m = .enqueue j.id request now ∧ j = .ofRequest j.id now request := by
  have hp := played hn m
  generalize t.play m = t' at hp hj
  cases hp with
  | pushed =>
    simp only [push, List.mem_append, List.mem_singleton] at hj
    rcases hj with hj | rfl
    · exact .inl hj
    · exact .inr ⟨_, _, rfl, rfl⟩
  | turned mem turn =>
    rcases (mem_put hn mem turn.same.1).1 hj with rfl | ⟨hj, -⟩
    · cases turn with
      | withdrawn => cases hs
      | reported processing => simp [Job.reported, processing] at hs
      | begun => cases hs
      | ended => exact absurd hs (status_ended_ne _ _ _).2
    · exact .inl hj
  | evicted => exact .inl (List.mem_filter.1 hj).1
  | refused => exact .inl hj

/-- No job comes to have ended but one that is called off, and one whose work ends. -/
theorem terminal_of_play {t : JobTable} (hn : t.ids.Nodup) {m : TableMove} {j : Job}
    (hj : j ∈ (t.play m).jobs) (hs : j.status.isTerminal = true) :
    j ∈ t.jobs ∨ (∃ now, m = .cancel j.id now ∧ (t.cancel now j.id).isSome) ∨
      ∃ i ∈ t.jobs, ∃ outcome now, m = .finish j.id outcome now ∧ i.status = .processing ∧
        j = i.ended now outcome := by
  have hp := played hn m
  generalize hafter : t.play m = t' at hp hj
  cases hp with
  | pushed =>
    simp only [push, List.mem_append, List.mem_singleton] at hj
    rcases hj with hj | rfl
    · exact .inl hj
    · cases hs
  | @turned _ i k mem turn =>
    rcases (mem_put hn mem turn.same.1).1 hj with rfl | ⟨hj, -⟩
    · have hid := turn.same.1
      cases turn with
      | @withdrawn _ now pending =>
        refine .inr (.inl ⟨now, by rw [hid], ?_⟩)
        unfold cancel
        rw [Option.isSome_map, Option.isSome_iff_ne_none]
        exact fun hnone => findIn?_eq_none hn hnone i mem hid.symm pending
      | reported processing => simp [Job.reported, processing, JobStatus.isTerminal] at hs
      | begun => simp [Job.begun, JobStatus.isTerminal] at hs
      | @ended _ outcome now processing =>
        exact .inr (.inr ⟨i, mem, outcome, now, by rw [hid], processing, rfl⟩)
    · exact .inl hj
  | evicted => exact .inl (List.mem_filter.1 hj).1
  | refused => exact .inl hj

/-- What is called off waits. -/
theorem stands_of_cancel {t : JobTable} {now : Instant} {id : String}
    (h : (t.cancel now id).isSome) : t.Stands id .pending := by
  unfold cancel at h
  rw [Option.isSome_map, Option.isSome_iff_exists] at h
  obtain ⟨j, hj⟩ := h
  exact ⟨j, findIn?_eq_some hj⟩

/-- A job that is worked on can be ended. -/
theorem finish_of_stands {t : JobTable} (hn : t.ids.Nodup) {id : String}
    (h : t.Stands id .processing) (now : Instant) (o : Outcome) :
    ∃ j ∈ t.jobs, j.id = id ∧ j.status = .processing ∧
      t.finish now id o = some (t.put (j.ended now o), Job.endEvent id o) := by
  obtain ⟨k, hk, hid, hs⟩ := h
  cases hfind : t.findIn? .processing id with
  | none => exact absurd hs (findIn?_eq_none hn hfind k hk hid)
  | some j =>
    obtain ⟨hj, hid, hs⟩ := findIn?_eq_some hfind
    exact ⟨j, hj, hid, hs, by simp [finish, hfind]⟩

theorem filter_put (t : JobTable) (j : Job) :
    (t.put j).jobs.filter (·.id ≠ j.id) = t.jobs.filter (·.id ≠ j.id) := by
  unfold put
  induction t.jobs with
  | nil => rfl
  | cons k rest ih =>
    rw [List.map_cons]
    by_cases hk : k.id = j.id
    · rw [if_pos hk, List.filter_cons_of_neg (by simp),
        List.filter_cons_of_neg (by simpa using hk), ih]
    · rw [if_neg hk, List.filter_cons_of_pos (by simpa using hk),
        List.filter_cons_of_pos (by simpa using hk), ih]

/-- A report on a job and the end of a job leave the records of all other jobs. -/
theorem filter_play {t : JobTable} {m : TableMove} {id : String}
    (hm : (∃ value extra, m = .report id value extra) ∨ ∃ outcome now, m = .finish id outcome now) :
    (t.play m).jobs.filter (·.id ≠ id) = t.jobs.filter (·.id ≠ id) := by
  rcases hm with ⟨value, extra, rfl⟩ | ⟨outcome, now, rfl⟩
  · simp only [play, report]
    cases hfind : t.findIn? .processing id with
    | none => rfl
    | some j =>
      obtain ⟨-, rfl, -⟩ := findIn?_eq_some hfind
      exact filter_put t (j.reported value extra)
  · simp only [play, finish]
    cases hfind : t.findIn? .processing id with
    | none => rfl
    | some j =>
      obtain ⟨-, rfl, -⟩ := findIn?_eq_some hfind
      simpa using filter_put t (j.ended now outcome)

end JobTable

/-! ## Jobs that were begun -/

namespace History

/-- The job was claimed. -/
def Begun (h : History) (id : String) : Prop :=
  ∃ before now after j, h = before ++ .claim now :: after ∧ (table before).next? = some j ∧
    j.id = id

theorem Begun.append {h : History} {id : String} (begun : h.Begun id) (g : History) :
    Begun (h ++ g) id := by
  obtain ⟨before, now, after, j, rfl, hnext, hid⟩ := begun
  exact ⟨before, now, after ++ g, j, by simp, hnext, hid⟩

theorem begun_of_claim {h : History} {now : Instant} {j : Job} (next : h.table.next? = some j) :
    Begun (h ++ [.claim now]) j.id :=
  ⟨h, now, [], j, rfl, next, rfl⟩

theorem begun_snoc {h : History} {m : TableMove} {id : String} (begun : Begun (h ++ [m]) id) :
    h.Begun id ∨ ∃ now j, m = .claim now ∧ h.table.next? = some j ∧ j.id = id := by
  obtain ⟨before, now, after, j, heq, hnext, hid⟩ := begun
  rcases split_snoc heq with ⟨rfl, hm, rfl⟩ | ⟨rest, rfl, rfl⟩
  · exact .inr ⟨now, j, hm.symm, hnext, hid⟩
  · exact .inl ⟨before, now, rest, j, rfl, hnext, hid⟩

/-- A job that waits is as it was asked for. -/
theorem asked_of_pending (h : History) (fresh : h.Fresh) :
    ∀ j ∈ h.table.jobs, j.status = .pending →
      ∃ request now, (j.id, request) ∈ h.requests ∧ j = .ofRequest j.id now request := by
  induction h using List.reverseRecOn with
  | nil => simp [JobTable.empty]
  | append_singleton h m ih =>
    intro j hj hs
    rw [table_snoc] at hj
    rw [requests_append]
    have hn := ids_nodup h fresh.of_append
    rcases JobTable.pending_of_play hn hj hs with hj | ⟨request, now, rfl, hnew⟩
    · obtain ⟨request, now, hmem, hasked⟩ := ih fresh.of_append j hj hs
      exact ⟨request, now, List.mem_append_left _ hmem, hasked⟩
    · exact ⟨request, now, List.mem_append_right _ (.head _), hnew⟩

/-- A job of the table is of the type and the repository that it was asked for with. -/
theorem asked_of_mem (h : History) (fresh : h.Fresh) :
    ∀ j ∈ h.table.jobs, ∃ request, (j.id, request) ∈ h.requests ∧ j.type = request.type ∧
      j.repository = request.repository := by
  induction h using List.reverseRecOn with
  | nil => simp [JobTable.empty]
  | append_singleton h m ih =>
    intro k hk
    rw [requests_append]
    rcases evolved_or_new fresh hk with ⟨j, hj, hjk⟩ | ⟨request, now, rfl, hnew⟩
    · obtain ⟨request, hmem, htype, hrepository⟩ := ih fresh.of_append j hj
      exact ⟨request, List.mem_append_left _ (hjk.id ▸ hmem), hjk.request.1.trans htype,
        hjk.request.2.1.trans hrepository⟩
    · rw [hnew]
      exact ⟨request, List.mem_append_right _ (.head _), rfl, rfl⟩

theorem request_unique {h : History} (fresh : h.Fresh) {id : String} {request request' : JobRequest}
    (hmem : (id, request) ∈ h.requests) (hmem' : (id, request') ∈ h.requests) :
    request = request' :=
  (Prod.mk.inj (List.inj_on_of_nodup_map fresh hmem hmem' rfl)).2

/-- The id of a job that was begun was given to it, the job does not wait any more, and it was not
called off. -/
structure Away (h : History) (id : String) : Prop where
  issued : id ∈ h.issued
  begun : ¬ h.table.Stands id .pending
  kept : ¬ h.Withdrawn id

/-- A change leaves a job away. -/
theorem Away.snoc {h : History} {m : TableMove} {id : String} (fresh : Fresh (h ++ [m]))
    (away : h.Away id) : Away (h ++ [m]) id := by
  refine ⟨?_, ?_, ?_⟩
  · rw [issued_append]
    exact List.mem_append_left _ away.issued
  · rintro ⟨j, hj, hid, hs⟩
    rw [table_snoc] at hj
    have hn := ids_nodup h fresh.of_append
    rcases JobTable.pending_of_play hn hj hs with hj | ⟨request, now, rfl, -⟩
    · exact away.begun ⟨j, hj, hid, hs⟩
    · exact not_issued fresh (hid ▸ away.issued)
  · rw [withdrawn_snoc]
    rintro (hw | ⟨now, rfl, hdone⟩)
    · exact away.kept hw
    · exact away.begun (JobTable.stands_of_cancel hdone)

theorem away_of_claim {h : History} {now : Instant} {j : Job} (fresh : Fresh (h ++ [.claim now]))
    (next : h.table.next? = some j) : Away (h ++ [.claim now]) j.id := by
  obtain ⟨hj, hs, -⟩ := JobTable.next?_eq_some next
  have hn := ids_nodup h fresh.of_append
  refine ⟨?_, fun hpending => ?_, ?_⟩
  · rw [issued_append]
    exact List.mem_append_left _ (issued_of_mem fresh.of_append hj)
  · have hprocessing : (table (h ++ [.claim now])).Stands j.id .processing := by
      rw [table_snoc, JobTable.processing_play hn]
      exact .inr ⟨now, j, rfl, next, rfl⟩
    cases JobTable.stands_unique (ids_nodup _ fresh) hprocessing hpending
  · rw [withdrawn_snoc]
    rintro (hw | ⟨now, hm, -⟩)
    · have hfailed := (lawful h fresh.of_append j hj).withdrawn hw
      simp [hs] at hfailed
    · cases hm

theorem away_of_begun {h : History} (fresh : h.Fresh) {id : String} (begun : h.Begun id) :
    h.Away id := by
  induction h using List.reverseRecOn with
  | nil =>
    obtain ⟨before, now, after, j, heq, -⟩ := begun
    simp at heq
  | append_singleton h m ih =>
    rcases begun_snoc begun with begun | ⟨now, j, rfl, next, rfl⟩
    · exact (ih fresh.of_append begun).snoc fresh
    · exact away_of_claim fresh next

end History

end CodeSurvey
