-- Sweeps of a running queue. A sweep looks for the jobs that are kept no longer, and removes them
-- in another step; in between, others may change the table and sweep it, too. What a sweep removes
-- has expired all the same, what it looked for is gone once it returns, each job is counted by one
-- sweep, and the other jobs stand as if there had been no sweeps.
import CodeSurvey.Proofs.Job.Eviction
import CodeSurvey.Proofs.Queue.Run
import CodeSurvey.Proofs.Queue.Step
import Mathlib.Algebra.GroupWithZero.Nat
import Mathlib.Data.List.Perm.Basic

namespace CodeSurvey

/-- The number that a sweep returns. -/
def Signal.swept? : Signal → Option Nat
  | swept count => some count
  | _ => none

/-- What is left of a sweep: the jobs to be removed, and its time. -/
def Call.evicting? : Call → Option (List String × Instant)
  | evicting ids now => some (ids, now)
  | _ => none

namespace Queue

variable {σ : Type}

def Move.isSweep : Move σ → Bool
  | sweep _ => true
  | _ => false

/-- The sweeps that have not returned. -/
def sweeps (q : Queue σ) : List (List String × Instant) := q.calls.filterMap Call.evicting?

/-- The ids of the jobs that a sweep would find. -/
def expired (q : Queue σ) (now : Instant) : List String := q.table.expired q.settings.retention now

/-- The numbers that sweeps return in a step. -/
def Passage.counts (p : Passage σ) : List Nat := p.signals.filterMap Signal.swept?

/-- The jobs that are in the table before a step, and not behind it. -/
def Passage.removed (p : Passage σ) : List Job :=
  p.before.table.lost p.after.table

/-- The sweep that returns in a step after it found jobs to remove. -/
def Passage.returning? (p : Passage σ) : Option (List String × Instant) :=
  match p.move with
  | .proceed n => p.before.calls[n]?.bind Call.evicting?
  | _ => none

/-- The numbers that the sweeps of a run returned, in order. -/
def counts (run : List (Passage σ)) : List Nat := run.flatMap Passage.counts

/-- The jobs that were removed in a run. -/
def removed (run : List (Passage σ)) : List Job := run.flatMap Passage.removed

/-! ## One step -/

/-- What a step has to do with sweeps. -/
inductive Sweeping (q : Queue σ) (m : Move σ) (signals : List Signal) (q' : Queue σ) : Prop
  | findsNone (now : Instant) (move : m = .sweep now) (none_ : q.expired now = [])
      (counts : signals.filterMap Signal.swept? = [0]) (sweeps : q'.sweeps = q.sweeps)
      (change : q.tableMove? m = none)
  | selects (now : Instant) (move : m = .sweep now) (some_ : q.expired now ≠ [])
      (counts : signals.filterMap Signal.swept? = [])
      (sweeps : q'.sweeps = q.sweeps ++ [(q.expired now, now)]) (change : q.tableMove? m = none)
  | returns (n : Nat) (ids : List String) (now : Instant) (before after : List (List String × Instant))
      (move : m = .proceed n) (call : q.calls[n]? = some (.evicting ids now))
      (counts : signals.filterMap Signal.swept? = [(q.table.evict q.settings.retention now ids).1])
      (own : q.sweeps = before ++ (ids, now) :: after) (sweeps : q'.sweeps = before ++ after)
      (change : q.tableMove? m = some (.evict q.settings.retention now ids))
  | other (move : m.isSweep = false) (counts : signals.filterMap Signal.swept? = [])
      (sweeps : q'.sweeps = q.sweeps) (change : ∀ c ∈ q.tableMove? m, c.isEviction = false)

section Step

variable {q q' : Queue σ} {m : Move σ} {signals : List Signal}

theorem Rung.sweeps (rung : Rung q q') : q'.sweeps = q.sweeps := by
  cases rung <;> rfl

theorem Rung.settings (rung : Rung q q') : q'.settings = q.settings := by
  cases rung <;> rfl

theorem sweep_sweeping {now : Instant} (made : q.step (.sweep now) = some (signals, q')) :
    Sweeping q (.sweep now) signals q' := by
  have made : q.sweep now = (signals, q') := Option.some.inj made
  unfold sweep at made
  cases hexpired : q.expired now with
  | nil =>
    rw [← Queue.expired, hexpired] at made
    obtain ⟨rfl, rfl⟩ := Prod.mk.inj made
    exact .findsNone now rfl hexpired rfl rfl rfl
  | cons id ids =>
    rw [← Queue.expired, hexpired] at made
    obtain ⟨rfl, rfl⟩ := Prod.mk.inj made
    have hsome : q.expired now ≠ [] := by simp [hexpired]
    refine .selects now rfl hsome rfl ?_ rfl
    simp [Queue.sweeps, Call.evicting?, hexpired]

theorem proceeded_sweeping {before after : List Call} {call : Call}
    (place : q.calls = before ++ call :: after) (h : Proceeded q before after call signals q') :
    Sweeping q (.proceed before.length) signals q' := by
  have hcall : q.calls[before.length]? = some call := by rw [place]; simp
  cases h with
  | evicts =>
    refine .returns _ _ _ (before.filterMap Call.evicting?) (after.filterMap Call.evicting?) rfl
      hcall rfl ?_ ?_ ?_
    · simp [Queue.sweeps, place, Call.evicting?]
    · simp [Queue.sweeps]
    · simp [tableMove?, hcall]
  | rings rung =>
    refine .other rfl rfl (rung.sweeps.trans ?_) (by simp [tableMove?, hcall])
    simp [Queue.sweeps, place, Call.evicting?, List.filterMap_cons]
  | _ =>
    refine .other rfl rfl ?_ (by simp [tableMove?, hcall])
    simp [Queue.sweeps, place, Call.evicting?, List.filterMap_cons]

theorem step_sweeping (made : q.step m = some (signals, q')) : Sweeping q m signals q' := by
  cases step_moved made with
  | asked hasked =>
    cases hasked with
    | sweeping => exact sweep_sweeping made
    | nothingOld => exact sweep_sweeping made
    | @reported id value extra t event done =>
      refine .other rfl rfl ?_ (by simp [tableMove?, TableMove.isEviction])
      cases event <;> simp [Queue.sweeps, Call.evicting?]
    | _ =>
      refine .other rfl rfl ?_ (by simp [tableMove?, TableMove.isEviction])
      simp [Queue.sweeps, Call.evicting?]
  | proceeded place hproceeded => exact proceeded_sweeping place hproceeded
  | drained hdrained =>
    have hchange : ∀ now, ∀ c ∈ q.tableMove? (.drainOn now), c.isEviction = false := by
      intro now c hc
      simp only [tableMove?] at hc
      split at hc <;> cases hc
      rfl
    cases hdrained <;> exact .other rfl rfl rfl (hchange _)
  | drainedOff _ hdrained => cases hdrained <;> exact .other rfl rfl rfl (by simp [tableMove?])
  | advanced place hadvanced =>
    have hchange : ∀ n now, ∀ c ∈ q.tableMove? (.advance n now), c.isEviction = false := by
      intro n now c hc
      simp only [tableMove?] at hc
      split at hc <;> cases hc
      · rfl
      · rfl
    cases hadvanced with
    | gone rung => exact .other rfl rfl rung.sweeps (hchange _ _)
    | worked works => cases works <;> exact .other rfl rfl rfl (hchange _ _)
    | _ => exact .other rfl rfl rfl (hchange _ _)

theorem step_settings (made : q.step m = some (signals, q')) : q'.settings = q.settings := by
  cases step_moved made with
  | asked hasked => cases hasked <;> rfl
  | proceeded _ hproceeded =>
    cases hproceeded with
    | rings rung => exact rung.settings
    | _ => rfl
  | drained hdrained => cases hdrained <;> rfl
  | drainedOff _ hdrained => cases hdrained <;> rfl
  | advanced _ hadvanced =>
    cases hadvanced with
    | gone rung => exact rung.settings
    | _ => rfl

end Step

section Passage

variable {p : Passage σ}

/-- A step that asks for no removal removes no job. -/
theorem Passage.removed_eq_nil (made : p.before.step p.move = some (p.signals, p.after))
    (hn : p.before.table.ids.Nodup)
    (change : ∀ c ∈ p.before.tableMove? p.move, c.isEviction = false) : p.removed = [] := by
  refine JobTable.lost_eq_nil ?_
  rw [(step_table made).1, tableAfter]
  cases hmove : p.before.tableMove? p.move with
  | none => exact List.Subset.refl _
  | some c =>
    rw [Option.elim_some, JobTable.ids_play hn (change c hmove)]
    exact List.subset_append_left _ _

/-- What a sweep returns is the number of the jobs that the same step removes. -/
theorem Passage.sum_counts (made : p.before.step p.move = some (p.signals, p.after))
    (hn : p.before.table.ids.Nodup) : p.counts.sum = p.removed.length := by
  have hnone : ∀ counts : List Nat, p.counts = counts → counts.sum = 0 →
      (∀ c ∈ p.before.tableMove? p.move, c.isEviction = false) →
      p.counts.sum = p.removed.length := by
    intro counts hcounts hzero change
    rw [hcounts, hzero, p.removed_eq_nil made hn change]
    rfl
  cases step_sweeping made with
  | findsNone now move none_ counts sweeps change => exact hnone [0] counts rfl (by simp [change])
  | selects now move some_ counts sweeps change => exact hnone [] counts rfl (by simp [change])
  | other move counts sweeps change => exact hnone [] counts rfl change
  | returns n ids now before after move call counts own sweeps change =>
    have hcounts : p.counts = _ := counts
    have htable := (step_table made).1
    rw [tableAfter, change] at htable
    rw [hcounts, List.sum_singleton, ← JobTable.length_lost_evict hn, Passage.removed, htable]
    rfl

/-- Behind a step, each id that was given out is that of a job of the table, or of one that was
removed. -/
theorem Passage.perm_removed (made : p.before.step p.move = some (p.signals, p.after))
    (hn : p.before.table.ids.Nodup) :
    (p.removed.map (·.id) ++ p.after.table.ids).Perm
      (p.before.table.ids ++ History.issued (p.before.tableMove? p.move).toList) := by
  unfold Passage.removed
  rw [(step_table made).1, tableAfter]
  cases p.before.tableMove? p.move with
  | none => simp [JobTable.lost_eq_nil (List.Subset.refl p.before.table.ids)]
  | some c => exact JobTable.perm_lost_play hn c

/-- A job that a step removes is one of those that the returning sweep found, and has expired. -/
theorem Passage.mem_removed (made : p.before.step p.move = some (p.signals, p.after))
    (hn : p.before.table.ids.Nodup) {j : Job} (hj : j ∈ p.removed) :
    ∃ ids now, (ids, now) ∈ p.before.sweeps ∧ j.id ∈ ids ∧
      j.HasExpired p.before.settings.retention now := by
  have hnone : (∀ c ∈ p.before.tableMove? p.move, c.isEviction = false) → False := by
    intro change
    rw [p.removed_eq_nil made hn change] at hj
    cases hj
  cases step_sweeping made with
  | findsNone now move none_ counts sweeps change => exact (hnone (by simp [change])).elim
  | selects now move some_ counts sweeps change => exact (hnone (by simp [change])).elim
  | other move counts sweeps change => exact (hnone change).elim
  | returns n ids now before after move call counts own sweeps change =>
    have htable := (step_table made).1
    rw [tableAfter, change] at htable
    have hplay : p.before.table.play (.evict p.before.settings.retention now ids) =
        (p.before.table.evict p.before.settings.retention now ids).2 := rfl
    rw [Passage.removed, htable, Option.elim_some, hplay, JobTable.lost_evict hn] at hj
    obtain ⟨-, hgone⟩ := List.mem_filter.1 hj
    obtain ⟨hid, hexpired⟩ := Bool.and_eq_true_iff.1 hgone
    exact ⟨ids, now, by simp [own], of_decide_eq_true hid, Job.isExpired_iff.1 hexpired⟩

end Passage

/-! ## Runs -/

variable {settings : QueueSettings} {shared : σ} {run : List (Passage σ)} {q : Queue σ}

@[simp] theorem counts_snoc (run : List (Passage σ)) (p : Passage σ) :
    counts (run ++ [p]) = counts run ++ p.counts := by
  simp [counts]

@[simp] theorem removed_snoc (run : List (Passage σ)) (p : Passage σ) :
    removed (run ++ [p]) = removed run ++ p.removed := by
  simp [removed]

namespace Run

theorem settings_eq (h : Run settings shared run q) : q.settings = settings := by
  induction h with
  | fresh => rfl
  | step past made ih => rw [step_settings made, ih]

/-- A sweep that has not returned was begun in the run, and found what it is about to remove. -/
theorem begun_of_mem_sweeps (h : Run settings shared run q) {ids : List String} {now : Instant}
    (hmem : (ids, now) ∈ q.sweeps) :
    ∃ x ∈ run, x.move = .sweep now ∧ x.before.expired now = ids := by
  induction h with
  | fresh => cases hmem
  | @step run q q' m signals past made ih =>
    have hbefore : (ids, now) ∈ q.sweeps →
        ∃ x ∈ run ++ [⟨q, m, signals, q'⟩], x.move = .sweep now ∧ x.before.expired now = ids := by
      intro hmem
      obtain ⟨x, hx, hsweep⟩ := ih hmem
      exact ⟨x, List.mem_append_left _ hx, hsweep⟩
    cases step_sweeping made with
    | findsNone _ _ _ _ sweeps => exact hbefore (sweeps ▸ hmem)
    | other _ _ sweeps => exact hbefore (sweeps ▸ hmem)
    | returns _ _ _ before after _ _ _ own sweeps =>
      refine hbefore ?_
      rw [sweeps] at hmem
      rw [own]
      rcases List.mem_append.1 hmem with hmem | hmem
      · exact List.mem_append_left _ hmem
      · exact List.mem_append_right _ (List.mem_cons_of_mem _ hmem)
    | selects now' move _ _ sweeps =>
      rw [sweeps] at hmem
      rcases List.mem_append.1 hmem with hmem | hmem
      · exact hbefore hmem
      · obtain ⟨rfl, rfl⟩ := Prod.mk.inj (List.mem_singleton.1 hmem)
        exact ⟨⟨q, m, signals, q'⟩, by simp, move, rfl⟩

/-- Each sweep has returned one number, or has not returned. -/
theorem length_counts (h : Run settings shared run q) :
    (counts run).length + q.sweeps.length = run.countP (·.move.isSweep) := by
  induction h with
  | fresh => rfl
  | @step run q q' m signals past made ih =>
    rw [counts_snoc, List.length_append, List.countP_append, List.countP_singleton]
    unfold Passage.counts
    cases step_sweeping made with
    | findsNone now move _ counts sweeps =>
      have hsweep : m.isSweep = true := by rw [move]; rfl
      simp only [counts, sweeps, hsweep, List.length_singleton, if_true]
      omega
    | selects now move _ counts sweeps =>
      have hsweep : m.isSweep = true := by rw [move]; rfl
      simp only [counts, sweeps, hsweep, List.length_append, List.length_singleton,
        List.length_nil, if_true]
      omega
    | returns _ _ _ before after move _ counts own sweeps =>
      have hnot : m.isSweep = false := by rw [move]; rfl
      rw [own, List.length_append, List.length_cons] at ih
      simp only [counts, sweeps, hnot, List.length_append, List.length_singleton,
        Bool.false_eq_true, if_false]
      omega
    | other hnot counts sweeps =>
      simp only [counts, sweeps, hnot, List.length_nil, Bool.false_eq_true, if_false]
      omega

theorem sum_counts (h : Run settings shared run q) : (counts run).sum = (removed run).length := by
  induction h with
  | fresh => rfl
  | @step run q q' m signals past made ih =>
    let p : Passage σ := ⟨q, m, signals, q'⟩
    have hp : p.counts.sum = p.removed.length := p.sum_counts made past.reached.ids_nodup
    rw [counts_snoc, removed_snoc, List.sum_append, List.length_append, ih, hp]

theorem perm_removed (h : Run settings shared run q) :
    ((removed run).map (·.id) ++ q.table.ids).Perm (history run).issued := by
  induction h with
  | fresh => exact .refl _
  | @step run q q' m signals past made ih =>
    let p : Passage σ := ⟨q, m, signals, q'⟩
    have hp : (p.removed.map (·.id) ++ q'.table.ids).Perm _ :=
      p.perm_removed made past.reached.ids_nodup
    rw [removed_snoc, List.map_append, history_append, history_singleton, History.issued_append,
      List.append_assoc]
    refine (hp.append_left _).trans ?_
    rw [← List.append_assoc]
    exact ih.append_right _

/-- The jobs of the table are those that would be there without sweeps, but for the removed ones,
with the same records and in the same order. -/
theorem jobs_eq_filter (h : Run settings shared run q) :
    q.table.jobs = (History.table (history run).unswept).jobs.filter
      (fun j => decide (j.id ∉ (removed run).map (·.id))) := by
  obtain ⟨htable, -, fresh⟩ := h.reached.table
  obtain ⟨gone, -, hwithout⟩ := History.table_eq_without fresh
  have hall := History.ids_unswept fresh
  have hn : (History.table (history run).unswept).ids.Nodup := by rw [hall]; exact fresh
  have hparts := List.nodup_append.1 (h.perm_removed.nodup_iff.2 fresh)
  rw [htable, hwithout]
  refine List.filter_congr fun j hj => ?_
  have hstays : j.id ∈ q.table.ids ↔ gone j.id = false := by
    rw [htable, hwithout, JobTable.mem_ids_without hj]
  have hissued : j.id ∈ (removed run).map (·.id) ++ q.table.ids := by
    rw [h.perm_removed.mem_iff, ← hall]
    exact List.mem_map_of_mem hj
  cases hgone : gone j.id with
  | false =>
    have hnot : j.id ∉ (removed run).map (·.id) := fun hmem =>
      hparts.2.2 _ hmem _ (hstays.2 hgone) rfl
    simpa using hnot
  | true =>
    have hmem : j.id ∈ (removed run).map (·.id) := by
      rcases List.mem_append.1 hissued with hmem | hmem
      · exact hmem
      · rw [hstays.1 hmem] at hgone
        cases hgone
    simpa using hmem

end Run

/-- The sweep that a step begins returns with a step: with the same one, if it finds no job to
remove, else with a later one that goes through the jobs that it found. -/
inductive Passage.ReturnsWith (x : Passage σ) (now : Instant) (later : List (Passage σ)) :
    Passage σ → Prop
  | atOnce (none_ : x.before.expired now = []) : ReturnsWith x now later x
  | evicting {y : Passage σ} (mem : y ∈ later)
      (own : y.returning? = some (x.before.expired now, now)) : ReturnsWith x now later y

theorem Passage.change_of_returning? {y : Passage σ} {ids : List String} {now : Instant}
    (h : y.returning? = some (ids, now)) :
    y.before.tableMove? y.move = some (.evict y.before.settings.retention now ids) := by
  unfold returning? at h
  split at h
  · rename_i n hmove
    obtain ⟨call, hcall, hevicting⟩ := Option.bind_eq_some_iff.1 h
    cases call with
    | evicting =>
      obtain ⟨rfl, rfl⟩ := Prod.mk.inj (Option.some.inj hevicting)
      simp [tableMove?, hmove, hcall]
    | _ => cases hevicting
  · cases h

/-- A job that a returning sweep goes through is not in the table behind the step, when it has
expired or was gone before. -/
theorem Passage.not_mem_after {y : Passage σ} (made : y.before.step y.move = some (y.signals, y.after))
    (hn : y.before.table.ids.Nodup) {ids : List String} {now : Instant} {id : String}
    (own : y.returning? = some (ids, now)) (hid : id ∈ ids)
    (expired : ∀ k ∈ y.before.table.jobs, k.id = id →
      k.HasExpired y.before.settings.retention now) : id ∉ y.after.table.ids := by
  have htable := (step_table made).1
  rw [tableAfter, y.change_of_returning? own] at htable
  have hafter : y.after.table = (y.before.table.evict y.before.settings.retention now ids).2 := htable
  intro hmem
  obtain ⟨k, hk, rfl⟩ := List.mem_map.1 hmem
  rw [hafter, JobTable.evict_jobs hn] at hk
  obtain ⟨hk, hstays⟩ := List.mem_filter.1 hk
  simp [hid, Job.isExpired_iff.2 (expired k hk rfl)] at hstays

/-- A job that has expired when a sweep begins is gone when the sweep returns, whoever removed
it. -/
theorem Run.not_mem_of_returns {past later : List (Passage σ)} {x y : Passage σ} {now : Instant}
    (h : Run settings shared (past ++ x :: later) q) (back : x.ReturnsWith now later y) {j : Job}
    (hj : j ∈ x.before.table.jobs) (expired : j.HasExpired settings.retention now)
    (reckoned : settings.retention.nanos ≤ JobTable.longestKeep.nanos ∨
      now.IsShown ∧ ∀ done ∈ j.completedAt, done.IsShown) : j.id ∉ y.after.table.ids := by
  have hx := h.at_step.1
  have hfound : j.id ∈ x.before.expired now := by
    unfold Queue.expired
    rw [hx.settings_eq]
    exact JobTable.mem_expired hj expired reckoned
  cases back with
  | atOnce none_ =>
    rw [none_] at hfound
    cases hfound
  | evicting mem own =>
    obtain ⟨mid, rest, rfl⟩ := List.append_of_mem mem
    have h' : Run settings shared ((past ++ x :: mid) ++ y :: rest) q := by simpa using h
    obtain ⟨hy, made⟩ := h'.at_step
    obtain ⟨htable, -, fresh⟩ := hy.reached.table
    rw [history_append] at htable fresh
    rw [hx.reached.table.1] at hj
    refine y.not_mem_after made hy.reached.ids_nodup own hfound fun k hk hid => ?_
    rcases History.removed_or_kept fresh hj with hgone | ⟨i, hi, hij, -, hsame⟩
    · exact absurd (hid ▸ htable ▸ List.mem_map_of_mem hk) hgone
    · rw [← htable] at hi
      obtain rfl := JobTable.eq_of_id hy.reached.ids_nodup hk hi (hid.trans hij.symm)
      rw [hy.settings_eq, hsame expired.terminal]
      exact expired

/-! ## The law -/

/-- Sweeps are exact, in whatever order their steps come between those of others. A step removes a
job only when it ended more than the retention before the time of a sweep that was begun. A job
that has expired for a sweep when that begins is gone when it returns; so it is with a retention too
long to be reckoned with, as no two times of a clock are that far apart. Each sweep returns one
number or has not returned, all numbers together are the number of the removed jobs, and each job
that was asked for is removed once or is in the table. The jobs of the table have the records that
they would have without sweeps, and stand in the same order. -/
theorem sweeping_is_exact (h : Run settings shared run q) :
    (∀ (past later : List (Passage σ)) (x : Passage σ), run = past ++ x :: later → ∀ j ∈ x.removed,
      ∃ now, (∃ s ∈ past, s.move = .sweep now) ∧ j.HasExpired settings.retention now) ∧
    (∀ (past later : List (Passage σ)) (x y : Passage σ) (now : Instant),
      run = past ++ x :: later → x.move = .sweep now → x.ReturnsWith now later y →
      ∀ j ∈ x.before.table.jobs, j.HasExpired settings.retention now →
        (settings.retention.nanos ≤ JobTable.longestKeep.nanos ∨
          now.IsShown ∧ ∀ done ∈ j.completedAt, done.IsShown) → j.id ∉ y.after.table.ids) ∧
    ((counts run).length + q.sweeps.length = run.countP (·.move.isSweep) ∧
      (counts run).sum = (removed run).length ∧
      ((removed run).map (·.id) ++ q.table.ids).Perm (history run).issued ∧
      (history run).issued.Nodup) ∧
    q.table.jobs = (History.table (history run).unswept).jobs.filter
      (fun j => decide (j.id ∉ (removed run).map (·.id))) := by
  refine ⟨?_, ?_, ?_, h.jobs_eq_filter⟩
  · rintro past later x rfl j hj
    obtain ⟨hx, made⟩ := h.at_step
    obtain ⟨ids, now, hmem, -, expired⟩ := x.mem_removed made hx.reached.ids_nodup hj
    obtain ⟨s, hs, hmove, -⟩ := hx.begun_of_mem_sweeps hmem
    rw [hx.settings_eq] at expired
    exact ⟨now, ⟨s, hs, hmove⟩, expired⟩
  · rintro past later x y now rfl - back j hj expired reckoned
    exact h.not_mem_of_returns back hj expired reckoned
  · exact ⟨h.length_counts, h.sum_counts, h.perm_removed, h.reached.table.2.2⟩

namespace Overlapping

/-- Jobs are kept no time at all. -/
def keptNoTime : QueueSettings := ⟨2, ⟨0⟩, ⟨0⟩⟩

/-- One of two jobs is called off. -/
def untilEnded : List (Move Unit) :=
  [.enqueue "a" ⟨"work", "r", .null⟩ ⟨0⟩, .proceed 0, .proceed 0,
    .enqueue "b" ⟨"work", "r", .null⟩ ⟨0⟩, .proceed 0, .proceed 0, .cancel "a" ⟨1⟩, .proceed 0]

/-- Another sweep begins and returns before the first one does, and a job is asked for. -/
def untilReturned : List (Move Unit) :=
  [.sweep ⟨3⟩, .enqueue "c" ⟨"work", "s", .null⟩ ⟨4⟩, .proceed 1, .proceed 0]

theorem ends : (walk? untilEnded (fresh keptNoTime ())).isSome = true := by decide +kernel

def ended := (walk? untilEnded (fresh keptNoTime ())).get ends

/-- The queue when the first sweep has found the job. -/
def sweeping : Queue Unit := (ended.2.sweep ⟨2⟩).2

theorem returns : (walk? untilReturned sweeping).isSome = true := by decide +kernel

def returned := (walk? untilReturned sweeping).get returns

end Overlapping

/-- The job is found by two sweeps: it is counted by the one that returns first, it is gone when the
other returns, and the two jobs that wait stay as they were. -/
theorem sweeping_is_exact_of_overlapping :
    ∃ past x later y q, Run Overlapping.keptNoTime () (past ++ x :: later) q ∧ x.move = .sweep ⟨2⟩ ∧
      x.ReturnsWith ⟨2⟩ later y ∧
      (∃ j ∈ x.before.table.jobs, j.id = "a" ∧ j.HasExpired Overlapping.keptNoTime.retention ⟨2⟩ ∧
        j.id ∉ y.after.table.ids) ∧
      counts (past ++ x :: later) = [1, 0] ∧ q.table.ids = ["b", "c"] ∧
      (counts (past ++ x :: later)).sum = (removed (past ++ x :: later)).length ∧
      q.table.jobs = (History.table (history (past ++ x :: later)).unswept).jobs.filter
        (fun j => decide (j.id ∉ (removed (past ++ x :: later)).map (·.id))) := by
  have hbefore : Run Overlapping.keptNoTime () Overlapping.ended.1 Overlapping.ended.2 :=
    Run.fresh.walk (Option.some_get Overlapping.ends).symm
  let x : Passage Unit := ⟨Overlapping.ended.2, .sweep ⟨2⟩, [], Overlapping.sweeping⟩
  have h : Run Overlapping.keptNoTime () (Overlapping.ended.1 ++ x :: Overlapping.returned.1)
      Overlapping.returned.2 := by
    rw [List.append_cons]
    exact (hbefore.step rfl).walk (Option.some_get Overlapping.returns).symm
  obtain ⟨-, hgone, ⟨-, hsum, -, -⟩, hjobs⟩ := sweeping_is_exact h
  have hexpired : ∃ j ∈ x.before.table.jobs, j.id = "a" ∧
      j.isExpired Overlapping.keptNoTime.retention ⟨2⟩ = true := by decide +kernel
  obtain ⟨j, hj, hid, hexpired⟩ := hexpired
  have hreturns : ∃ y ∈ Overlapping.returned.1, y.returning? = some (x.before.expired ⟨2⟩, ⟨2⟩) := by
    decide +kernel
  obtain ⟨y, hy, own⟩ := hreturns
  have back : x.ReturnsWith ⟨2⟩ Overlapping.returned.1 y := .evicting hy own
  refine ⟨_, x, _, y, _, h, rfl, back, ⟨j, hj, hid, Job.isExpired_iff.1 hexpired, ?_⟩,
    by decide +kernel, by decide +kernel, hsum, hjobs⟩
  exact hgone _ _ _ _ _ rfl rfl back j hj (Job.isExpired_iff.1 hexpired) (.inl (by decide))

end Queue

end CodeSurvey
