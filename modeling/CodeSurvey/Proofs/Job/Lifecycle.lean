-- The life of a job. In every history of the table a job waits, is worked on and
-- ends, or is called off while it waits. What its record says of progress, error
-- and times follows from how it stands, and the record of a job that has ended
-- stays as it is until the job is removed.
import CodeSurvey.Proofs.Queue.History

namespace CodeSurvey

/-! ## Progress -/

theorem Job.clampedProgress_le (value : Int64) : Job.clampedProgress value ≤ 99 := by
  unfold clampedProgress
  split
  · decide
  · split
    · decide
    · rename_i hneg hbig
      rw [Int64.not_lt, Int64.le_iff_toInt_le] at hneg
      rw [gt_iff_lt, Int64.not_lt, Int64.le_iff_toInt_le] at hbig
      have h0 : (0 : Int64).toInt = 0 := rfl
      have h99 : (99 : Int64).toInt = 99 := rfl
      rw [UInt8.le_iff_toNat_le, UInt8.toNat_ofNat']
      have : (99 : UInt8).toNat = 99 := rfl
      omega

theorem Job.reported_progress_le {j : Job} (value : Int64) (extra : Option Json)
    (h : j.progress ≤ 99) : (j.reported value extra).progress ≤ 99 := by
  have hc := Job.clampedProgress_le value
  simp only [reported]
  rw [UInt8.le_iff_toNat_le] at *
  simp only [Max.max]
  split <;> assumption

theorem Job.progress_le_reported (j : Job) (value : Int64) (extra : Option Json) :
    j.progress ≤ (j.reported value extra).progress := by
  simp only [reported, Max.max]
  split
  · exact UInt8.le_refl _
  · rename_i h
    rw [UInt8.le_iff_toNat_le] at *
    omega

/-! ## The record of a job -/

namespace History

/-- The job was called off: that was asked for and done. -/
def Withdrawn (h : History) (id : String) : Prop :=
  ∃ before now after, h = before ++ .cancel id now :: after ∧ ((table before).cancel now id).isSome

/-- A job was called off before the last change, or by it. -/
theorem withdrawn_snoc {h : History} {m : TableMove} {id : String} :
    Withdrawn (h ++ [m]) id ↔
      h.Withdrawn id ∨ ∃ now, m = .cancel id now ∧ (h.table.cancel now id).isSome := by
  constructor
  · rintro ⟨before, now, after, heq, hsome⟩
    rcases List.eq_nil_or_concat after with rfl | ⟨rest, last, rfl⟩
    · obtain ⟨rfl, hm⟩ := List.append_inj' heq rfl
      exact Or.inr ⟨now, by simpa using hm, hsome⟩
    · rw [List.concat_eq_append, ← List.cons_append, ← List.append_assoc] at heq
      obtain ⟨rfl, -⟩ := List.append_inj' heq rfl
      exact Or.inl ⟨before, now, rest, rfl, hsome⟩
  · rintro (⟨before, now, after, rfl, hsome⟩ | ⟨now, rfl, hsome⟩)
    · exact ⟨before, now, after ++ [m], by simp, hsome⟩
    · exact ⟨h, now, [], rfl, hsome⟩

end History

/-- What the record of a job says, by how the job stands. -/
structure Job.Lawful (h : History) (j : Job) : Prop where
  pending : j.status = .pending →
    j.progress = 0 ∧ j.error = none ∧ j.startedAt = none ∧ j.completedAt = none
  processing : j.status = .processing →
    j.startedAt.isSome ∧ j.completedAt = none ∧ j.error = none ∧ j.progress ≤ 99
  completed : j.status = .completed →
    j.progress = 100 ∧ j.error = none ∧ j.startedAt.isSome ∧ j.completedAt.isSome
  failed : j.status = .failed →
    j.error.isSome ∧ j.completedAt.isSome ∧ j.progress ≤ 99 ∧
      (j.startedAt = none ↔ h.Withdrawn j.id)
  /-- Only a job that has failed was called off. -/
  withdrawn : h.Withdrawn j.id → j.status = .failed

/-- A progress of 100 is that of a job that has completed, and of no other. -/
theorem Job.Lawful.progress {h : History} {j : Job} (l : j.Lawful h) :
    j.progress = 100 ↔ j.status = .completed := by
  constructor
  · intro hp
    cases hs : j.status with
    | pending => rw [(l.pending hs).1] at hp; simp at hp
    | processing => have := (l.processing hs).2.2.2; rw [hp] at this; simp at this
    | completed => rfl
    | failed => have := (l.failed hs).2.2.1; rw [hp] at this; simp at this
  · intro hs
    exact (l.completed hs).1

/-! ## One change -/

/-- The changes of status, each with the change of the table that makes it. -/
inductive JobStatus.Becomes (id : String) : TableMove → JobStatus → JobStatus → Prop
  | begun {now : Instant} : Becomes id (.claim now) .pending .processing
  | completed {outcome : Outcome} {now : Instant} :
      Becomes id (.finish id outcome now) .processing .completed
  | failed {outcome : Outcome} {now : Instant} :
      Becomes id (.finish id outcome now) .processing .failed
  | withdrawn {now : Instant} : Becomes id (.cancel id now) .pending .failed

/-- How one change may alter the record of a job. -/
structure Job.Evolves (m : TableMove) (j k : Job) : Prop where
  id : k.id = j.id
  request : k.type = j.type ∧ k.repository = j.repository ∧ k.createdAt = j.createdAt
  status : k.status = j.status ∨ JobStatus.Becomes j.id m j.status k.status
  terminal : j.status.isTerminal → k = j
  progress : j.progress ≤ k.progress

theorem Job.Evolves.refl (m : TableMove) (j : Job) : Job.Evolves m j j :=
  ⟨rfl, ⟨rfl, rfl, rfl⟩, Or.inl rfl, fun _ => rfl, UInt8.le_refl _⟩

/-- A turn of a lawful job is one of the allowed ones. -/
theorem Job.Turn.evolves {h : History} {t : JobTable} {m : TableMove} {j k : Job}
    (l : j.Lawful h) (turn : Job.Turn t m j k) : Job.Evolves m j k := by
  refine ⟨turn.same.1, turn.same.2, ?_, ?_, ?_⟩
  · cases turn with
    | withdrawn pending => exact Or.inr (pending ▸ .withdrawn)
    | reported => exact Or.inl rfl
    | begun next => exact Or.inr ((JobTable.next?_eq_some next).2.1 ▸ .begun)
    | @ended _ outcome now processing =>
      unfold Job.ended
      rw [processing]
      cases outcome.failure? with
      | none => exact Or.inr .completed
      | some f => exact Or.inr .failed
  · intro hterm
    have hopen : j.status = .pending ∨ j.status = .processing := by
      cases turn with
      | withdrawn pending => exact Or.inl pending
      | reported processing => exact Or.inr processing
      | begun next => exact Or.inl (JobTable.next?_eq_some next).2.1
      | ended processing => exact Or.inr processing
    rcases hopen with hs | hs <;> simp [hs, JobStatus.isTerminal] at hterm
  · cases turn with
    | withdrawn => exact UInt8.le_refl _
    | reported => exact j.progress_le_reported _ _
    | begun next =>
      rw [(l.pending (JobTable.next?_eq_some next).2.1).1]
      exact UInt8.le_refl _
    | @ended _ outcome now processing =>
      unfold Job.ended
      cases outcome.failure? with
      | none =>
        have := (l.processing processing).2.2.2
        rw [UInt8.le_iff_toNat_le] at *
        simp at *
        omega
      | some f => exact UInt8.le_refl _

theorem Job.lawful_ofRequest {h : History} {id : String} (request : JobRequest) (now : Instant)
    (hnot : ¬ h.Withdrawn id) : (Job.ofRequest id now request).Lawful h where
  pending _ := ⟨rfl, rfl, rfl, rfl⟩
  processing hs := by cases hs
  completed hs := by cases hs
  failed hs := by cases hs
  withdrawn hw := absurd hw hnot

/-- A change that is no cancel of the job, or is refused, calls no job off. -/
theorem History.withdrawn_snoc_iff {h : History} {m : TableMove} {id : String}
    (hm : ∀ now, m = .cancel id now → h.table.cancel now id = none) :
    Withdrawn (h ++ [m]) id ↔ h.Withdrawn id := by
  rw [withdrawn_snoc, or_iff_left_iff_imp]
  rintro ⟨now, rfl, hsome⟩
  simp [hm now rfl] at hsome

/-- A job that a change does not alter stays lawful. -/
theorem Job.Lawful.kept {h : History} {m : TableMove} {j : Job} (l : j.Lawful h)
    (hm : ∀ now, m = .cancel j.id now → h.table.cancel now j.id = none) :
    j.Lawful (h ++ [m]) where
  pending := l.pending
  processing := l.processing
  completed := l.completed
  failed hs := by
    rw [History.withdrawn_snoc_iff hm]
    exact l.failed hs
  withdrawn := by
    rw [History.withdrawn_snoc_iff hm]
    exact l.withdrawn

/-- A job that waits and is called off fails without a start. -/
theorem Job.lawful_withdrawn {h : History} {j : Job} (now : Instant) (l : j.Lawful h)
    (hj : j ∈ h.table.jobs) (hn : h.table.ids.Nodup) (hs : j.status = .pending) :
    (j.withdrawn now).Lawful (h ++ [TableMove.cancel j.id now]) := by
  have hdone : (h.table.cancel now j.id).isSome := by
    unfold JobTable.cancel
    rw [Option.isSome_map, Option.isSome_iff_ne_none]
    intro hnone
    exact JobTable.findIn?_eq_none hn hnone j hj rfl hs
  have hw : History.Withdrawn (h ++ [.cancel j.id now]) j.id :=
    History.withdrawn_snoc.mpr (Or.inr ⟨now, rfl, hdone⟩)
  obtain ⟨hp, -, hstart, -⟩ := l.pending hs
  refine ⟨?_, ?_, ?_, ?_, ?_⟩
  · intro h; cases h
  · intro h; cases h
  · intro h; cases h
  · intro _
    refine ⟨rfl, rfl, ?_, fun _ => hw, fun _ => hstart⟩
    simp [withdrawn, hp]
  · intro _; rfl

theorem Job.lawful_ended {h : History} {m : TableMove} {j : Job} (now : Instant) (o : Outcome)
    (l : j.Lawful h) (hs : j.status = .processing) (hw : ¬ (h ++ [m]).Withdrawn j.id) :
    (j.ended now o).Lawful (h ++ [m]) := by
  obtain ⟨hstart, -, herror, hprogress⟩ := l.processing hs
  unfold ended
  cases o.failure? with
  | none =>
    refine ⟨?_, ?_, ?_, ?_, ?_⟩
    · intro h; cases h
    · intro h; cases h
    · intro _; exact ⟨rfl, herror, hstart, rfl⟩
    · intro h; cases h
    · intro h; exact absurd h hw
  | some f =>
    refine ⟨?_, ?_, ?_, ?_, ?_⟩
    · intro h; cases h
    · intro h; cases h
    · intro h; cases h
    · intro _
      refine ⟨rfl, rfl, hprogress, ?_, fun h => absurd h hw⟩
      intro hnone
      simp only at hnone
      simp [hnone] at hstart
    · intro _; rfl

/-- A cancel turns only the job that it names. -/
theorem Job.Turn.id_of_cancel {t : JobTable} {m : TableMove} {j k : Job} {id : String}
    {now : Instant} (turn : Job.Turn t m j k) (hm : m = .cancel id now) : id = j.id := by
  cases turn with
  | withdrawn => cases hm; rfl
  | reported => cases hm
  | begun => cases hm
  | ended => cases hm

theorem Job.Turn.lawful {h : History} {m : TableMove} {j k : Job} (hn : h.table.ids.Nodup)
    (mem : j ∈ h.table.jobs) (l : j.Lawful h) (turn : Job.Turn h.table m j k) :
    k.Lawful (h ++ [m]) := by
  -- a turn by anything but a cancel leaves a job that was not called off
  have hnot : j.status ≠ .failed → (∀ now, m ≠ .cancel j.id now) → ¬ (h ++ [m]).Withdrawn j.id := by
    intro hs hm
    rw [History.withdrawn_snoc_iff (fun now he => absurd he (hm now))]
    exact fun hw => hs (l.withdrawn hw)
  cases turn with
  | withdrawn pending => exact Job.lawful_withdrawn _ l mem hn pending
  | @reported _ value extra processing =>
    obtain ⟨hstart, hend, herror, hprogress⟩ := l.processing processing
    have hw := hnot (by simp [processing]) (by simp)
    refine ⟨?_, ?_, ?_, ?_, fun h => absurd h hw⟩
    · intro h; simp [Job.reported, processing] at h
    · intro _
      exact ⟨hstart, hend, herror, Job.reported_progress_le value extra hprogress⟩
    · intro h; simp [Job.reported, processing] at h
    · intro h; simp [Job.reported, processing] at h
  | begun next =>
    have hs := (JobTable.next?_eq_some next).2.1
    obtain ⟨-, herror, -, hend⟩ := l.pending hs
    have hw := hnot (by simp [hs]) (by simp)
    refine ⟨?_, ?_, ?_, ?_, fun h => absurd h hw⟩
    · intro h; cases h
    · intro _
      exact ⟨rfl, hend, herror, by simp [Job.begun]⟩
    · intro h; cases h
    · intro h; cases h
  | ended processing =>
    exact Job.lawful_ended _ _ l processing (hnot (by simp [processing]) (by simp))

/-! ## All histories -/

namespace History

theorem issued_of_withdrawn {h : History} (fresh : h.Fresh) {id : String}
    (hw : h.Withdrawn id) : id ∈ h.issued := by
  obtain ⟨before, now, after, rfl, hsome⟩ := hw
  unfold JobTable.cancel at hsome
  rw [Option.isSome_map, Option.isSome_iff_exists] at hsome
  obtain ⟨j, hj⟩ := hsome
  obtain ⟨hmem, rfl, -⟩ := JobTable.findIn?_eq_some hj
  rw [issued_append]
  exact List.mem_append_left _ (issued_of_mem fresh.of_append hmem)

theorem lawful (h : History) (fresh : h.Fresh) : ∀ j ∈ h.table.jobs, j.Lawful h := by
  induction h using List.reverseRecOn with
  | nil => simp [JobTable.empty]
  | append_singleton h m ih =>
    have ih := ih fresh.of_append
    have hn := ids_nodup h fresh.of_append
    have hp := JobTable.played hn m
    rw [table_snoc]
    generalize (table h).play m = t at hp
    cases hp with
    | @pushed id request now =>
      intro j hj
      simp only [JobTable.push, List.mem_append, List.mem_singleton] at hj
      rcases hj with hj | rfl
      · exact (ih j hj).kept (by simp)
      · apply Job.lawful_ofRequest
        rw [withdrawn_snoc_iff (by simp)]
        exact fun hw => not_issued fresh (issued_of_withdrawn fresh.of_append hw)
    | @turned _ j k mem turn =>
      intro i hi
      rcases (JobTable.mem_put hn mem turn.same.1).mp hi with rfl | ⟨hi, hne⟩
      · exact turn.lawful hn mem (ih j mem)
      · refine (ih i hi).kept ?_
        intro now hm
        exact absurd (JobTable.eq_of_id hn hi mem (turn.id_of_cancel hm)) hne
    | evicted =>
      intro j hj
      exact (ih j (List.mem_filter.mp hj).1).kept (by simp)
    | refused refuses =>
      intro j hj
      refine (ih j hj).kept ?_
      rintro now rfl
      exact refuses

/-- What one change does to each job: it evolves, or it had ended and is removed. -/
theorem evolves_or_removed {h : History} {m : TableMove} (fresh : Fresh (h ++ [m])) {j : Job}
    (hj : j ∈ h.table.jobs) :
    (∃ k ∈ (table (h ++ [m])).jobs, Job.Evolves m j k) ∨
      ((∃ keep now ids, m = .evict keep now ids) ∧ j.status.isTerminal ∧
        j.id ∉ (table (h ++ [m])).ids) := by
  have hn := ids_nodup h fresh.of_append
  have hp := JobTable.played hn m
  rw [table_snoc]
  generalize (table h).play m = t at hp
  cases hp with
  | pushed => exact Or.inl ⟨j, List.mem_append_left _ hj, .refl _ j⟩
  | @turned _ i k mem turn =>
    by_cases hij : j = i
    · subst hij
      exact Or.inl ⟨k, (JobTable.mem_put hn mem turn.same.1).mpr (Or.inl rfl),
        turn.evolves (lawful h fresh.of_append j mem)⟩
    · exact Or.inl ⟨j, (JobTable.mem_put hn mem turn.same.1).mpr (Or.inr ⟨hj, hij⟩), .refl _ j⟩
  | @evicted keep now ids =>
    by_cases hgo : (decide (j.id ∈ ids) && j.isExpired keep now) = true
    · refine Or.inr ⟨⟨keep, now, ids, rfl⟩, ?_, ?_⟩
      · simp only [Bool.and_eq_true, Job.isExpired] at hgo
        exact hgo.2.1
      · intro hmem
        obtain ⟨k, hk, hkj⟩ := List.mem_map.mp hmem
        obtain ⟨hk, hstay⟩ := List.mem_filter.mp hk
        rw [JobTable.eq_of_id hn hk hj hkj, hgo] at hstay
        simp at hstay
    · rw [Bool.not_eq_true] at hgo
      exact Or.inl ⟨j, List.mem_filter.mpr ⟨hj, by rw [hgo]; rfl⟩, .refl _ j⟩
  | refused => exact Or.inl ⟨j, hj, .refl _ j⟩

/-- Where each job comes from after one change: it evolved, or it was just asked for. -/
theorem evolved_or_new {h : History} {m : TableMove} (fresh : Fresh (h ++ [m])) {k : Job}
    (hk : k ∈ (table (h ++ [m])).jobs) :
    (∃ j ∈ h.table.jobs, Job.Evolves m j k) ∨
      ∃ request now, m = .enqueue k.id request now ∧ k = .ofRequest k.id now request := by
  have hn := ids_nodup h fresh.of_append
  have hp := JobTable.played hn m
  rw [table_snoc] at hk
  generalize (table h).play m = t at hp hk
  cases hp with
  | @pushed id request now =>
    simp only [JobTable.push, List.mem_append, List.mem_singleton] at hk
    rcases hk with hk | rfl
    · exact Or.inl ⟨k, hk, .refl _ k⟩
    · exact Or.inr ⟨request, now, rfl, rfl⟩
  | @turned _ j i mem turn =>
    rcases (JobTable.mem_put hn mem turn.same.1).mp hk with rfl | ⟨hk, -⟩
    · exact Or.inl ⟨j, mem, turn.evolves (lawful h fresh.of_append j mem)⟩
    · exact Or.inl ⟨k, hk, .refl _ k⟩
  | evicted => exact Or.inl ⟨k, (List.mem_filter.mp hk).1, .refl _ k⟩
  | refused => exact Or.inl ⟨k, hk, .refl _ k⟩

/-- A job that was removed is not in the table again. -/
theorem removed_stays {h g : History} (fresh : Fresh (h ++ g)) {id : String}
    (hid : id ∈ h.issued) (hgone : id ∉ h.table.ids) : id ∉ (table (h ++ g)).ids := by
  induction g using List.reverseRecOn with
  | nil => simpa using hgone
  | append_singleton g m ih =>
    rw [← List.append_assoc] at fresh ⊢
    have ih := ih fresh.of_append
    intro hmem
    obtain ⟨k, hk, rfl⟩ := List.mem_map.mp hmem
    rcases evolved_or_new fresh hk with ⟨j, hj, hjk⟩ | ⟨request, now, rfl, -⟩
    · exact ih (hjk.id ▸ List.mem_map_of_mem hj)
    · refine not_issued fresh ?_
      rw [issued_append]
      exact List.mem_append_left _ hid

/-- However a history goes on, a job is removed, or its progress has not gone back and its record
has not changed since it ended. -/
theorem removed_or_kept {h g : History} (fresh : Fresh (h ++ g)) {j : Job}
    (hj : j ∈ h.table.jobs) :
    j.id ∉ (table (h ++ g)).ids ∨
      ∃ k ∈ (table (h ++ g)).jobs, k.id = j.id ∧ j.progress ≤ k.progress ∧
        (j.status.isTerminal → k = j) := by
  induction g using List.reverseRecOn with
  | nil => exact Or.inr ⟨j, by simpa using hj, rfl, UInt8.le_refl _, fun _ => rfl⟩
  | append_singleton g m ih =>
    rw [← List.append_assoc] at fresh ⊢
    rcases ih fresh.of_append with hgone | ⟨k, hk, hid, hprogress, hterm⟩
    · refine Or.inl (removed_stays fresh ?_ hgone)
      rw [issued_append]
      exact List.mem_append_left _ (issued_of_mem fresh.of_append.of_append hj)
    · rcases evolves_or_removed fresh hk with ⟨i, hi, hki⟩ | ⟨-, -, hgone⟩
      · refine Or.inr ⟨i, hi, hki.id.trans hid, UInt8.le_trans hprogress hki.progress, ?_⟩
        intro ht
        obtain rfl := hterm ht
        exact hki.terminal ht
      · exact Or.inl (hid ▸ hgone)

end History

/-! ## The law -/

/-- The life of a job. In every history of the table in which ids are given once, the record of
each job says what its status asks for; one change alters a job only along the allowed changes of
status and removes only jobs that have ended; and over any further changes progress never goes
back and a job that has ended stays as it is until it is removed. The table of every queue, in
whatever order its steps come, is the table of such a history. -/
theorem job_lifecycle {σ : Type} :
    (∀ h : History, h.Fresh →
      (∀ j ∈ h.table.jobs, j.Lawful h ∧ (j.progress = 100 ↔ j.status = .completed)) ∧
      (∀ m, History.Fresh (h ++ [m]) →
        (∀ j ∈ h.table.jobs,
          (∃ k ∈ (History.table (h ++ [m])).jobs, Job.Evolves m j k) ∨
            ((∃ keep now ids, m = .evict keep now ids) ∧ j.status.isTerminal ∧
              j.id ∉ (History.table (h ++ [m])).ids)) ∧
        ∀ k ∈ (History.table (h ++ [m])).jobs,
          (∃ j ∈ h.table.jobs, Job.Evolves m j k) ∨
            ∃ request now, m = .enqueue k.id request now ∧ k = .ofRequest k.id now request) ∧
      ∀ g, History.Fresh (h ++ g) → ∀ j ∈ h.table.jobs,
        j.id ∉ (History.table (h ++ g)).ids ∨
          ∃ k ∈ (History.table (h ++ g)).jobs, k.id = j.id ∧ j.progress ≤ k.progress ∧
            (j.status.isTerminal → k = j)) ∧
    ∀ (settings : QueueSettings) (shared : σ) (h : History) (q : Queue σ),
      Queue.Reached settings shared h q → h.Fresh ∧ q.table = h.table := by
  refine ⟨fun h fresh => ⟨?_, ?_, ?_⟩, ?_⟩
  · intro j hj
    have l := History.lawful h fresh j hj
    exact ⟨l, l.progress⟩
  · intro m hm
    exact ⟨fun j hj => History.evolves_or_removed hm hj, fun k hk => History.evolved_or_new hm hk⟩
  · intro g hg j hj
    exact History.removed_or_kept hg hj
  · intro settings shared h q reached
    obtain ⟨htable, -, fresh⟩ := reached.table
    exact ⟨fresh, htable⟩

/-- A job that is worked on, reported on past the end and completed, and one that is called off. -/
def History.twoJobs : History :=
  [.enqueue "a" ⟨"work", "r", .null⟩ ⟨0⟩, .enqueue "b" ⟨"work", "r", .null⟩ ⟨1⟩, .claim ⟨2⟩,
    .report "a" 120 none, .cancel "b" ⟨3⟩, .cancel "a" ⟨4⟩, .finish "a" .succeeded ⟨5⟩]

/-- The law at work on two jobs: both are there at the end, and each record is lawful. -/
theorem job_lifecycle_of_two_jobs :
    History.twoJobs.Fresh ∧ History.twoJobs.table.jobs.length = 2 ∧
      ∀ j ∈ History.twoJobs.table.jobs,
        j.Lawful History.twoJobs ∧ (j.progress = 100 ↔ j.status = .completed) :=
  have fresh : History.twoJobs.Fresh := by
    unfold History.Fresh
    decide
  ⟨fresh, by rfl, ((@job_lifecycle Unit).1 History.twoJobs fresh).1⟩

end CodeSurvey
