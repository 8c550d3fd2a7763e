-- The removal of old jobs. It counts the jobs that it takes out of the table, and the others it
-- does not touch: they stand as they would if nothing had ever been removed, in the same order.
import CodeSurvey.Proofs.Job.Lifecycle
import Mathlib.Data.List.Find

namespace CodeSurvey

def TableMove.isEviction : TableMove → Bool
  | .evict _ _ _ => true
  | _ => false

theorem History.issued_eviction {m : TableMove} (hm : m.isEviction = true) :
    History.issued [m] = [] := by
  cases m with
  | evict => rfl
  | _ => cases hm

/-! ## Jobs that are kept no longer -/

/-- The job has ended, and more than the time for which jobs are kept has gone by since. -/
structure Job.HasExpired (keep : Duration) (now : Instant) (j : Job) : Prop where
  terminal : j.status.isTerminal = true
  overdue : ∃ done, j.completedAt = some done ∧ keep.nanos < now.nanos - done.nanos

theorem Job.isExpired_iff {keep : Duration} {now : Instant} {j : Job} :
    j.isExpired keep now = true ↔ j.HasExpired keep now := by
  unfold isExpired
  rw [Bool.and_eq_true, Option.any_eq_true]
  constructor
  · rintro ⟨hterminal, done, hdone, hlong⟩
    exact ⟨hterminal, done, hdone, of_decide_eq_true hlong⟩
  · rintro ⟨hterminal, done, hdone, hlong⟩
    exact ⟨hterminal, done, hdone, decide_eq_true hlong⟩

/-- The points in time that have a year from -262143 to 262142; other ones no clock shows. -/
structure Instant.IsShown (t : Instant) : Prop where
  from_first : daysOf (-262143) 1 1 * 86400000000000 ≤ t.nanos
  to_last : t.nanos < daysOf 262143 1 1 * 86400000000000

/-- Between two times of a clock there is less than the longest time for which jobs can be kept. -/
theorem Instant.IsShown.sub_le {now done : Instant} (hnow : now.IsShown) (hdone : done.IsShown) :
    now.nanos - done.nanos ≤ JobTable.longestKeep.nanos := by
  have hfirst : daysOf (-262143) 1 1 = -96465292 := by decide
  have hlast : daysOf 262143 1 1 = 95026237 := by decide
  have hlongest : JobTable.longestKeep.nanos = 9223372036854775807000000 := by decide
  have := hnow.to_last
  have := hdone.from_first
  omega

namespace JobTable

variable {t : JobTable} {keep : Duration} {now : Instant}

/-- All jobs that have expired are found, when the clock shows the times or jobs can be kept for
that long. -/
theorem mem_expired {j : Job} (hj : j ∈ t.jobs) (expired : j.HasExpired keep now)
    (reckoned : keep.nanos ≤ longestKeep.nanos ∨ now.IsShown ∧ ∀ done ∈ j.completedAt, done.IsShown) :
    j.id ∈ t.expired keep now := by
  have hkeep : keep.nanos ≤ longestKeep.nanos := by
    rcases reckoned with hkeep | ⟨hnow, hdone⟩
    · exact hkeep
    · obtain ⟨done, hj, hlong⟩ := expired.overdue
      have := hnow.sub_le (hdone done hj)
      omega
  unfold JobTable.expired
  rw [if_pos hkeep]
  exact List.mem_map_of_mem (List.mem_filter.2 ⟨hj, Job.isExpired_iff.2 expired⟩)

/-! ## How many jobs are removed -/

theorem length_filter_ne (hn : t.ids.Nodup) {j : Job} (hj : j ∈ t.jobs) :
    (t.jobs.filter (·.id ≠ j.id)).length + 1 = t.jobs.length := by
  have hone : t.jobs.countP (fun k => decide (k.id = j.id)) = 1 := by
    have hcount : t.ids.count j.id = 1 := List.count_eq_one_of_mem hn (List.mem_map_of_mem hj)
    rw [ids, List.count, List.countP_map] at hcount
    exact hcount
  have hall := List.length_eq_countP_add_countP (fun k => decide (k.id = j.id)) (l := t.jobs)
  rw [← List.countP_eq_length_filter]
  simp only [decide_not, decide_eq_true_eq] at hall ⊢
  omega

/-- One id more keeps the sum of the number and of the length. -/
theorem evictOne_count {acc : Nat × JobTable} (hn : acc.2.ids.Nodup) (keep : Duration)
    (now : Instant) (id : String) :
    (evictOne keep now acc id).2.ids.Nodup ∧
      (evictOne keep now acc id).1 + (evictOne keep now acc id).2.jobs.length =
        acc.1 + acc.2.jobs.length := by
  unfold evictOne
  split
  · rename_i hexpired
    obtain ⟨j, hfind, -⟩ := Option.any_eq_true _ _ |>.1 hexpired
    have hj : j ∈ acc.2.jobs := List.mem_of_find?_eq_some hfind
    have hid : j.id = id := by simpa using List.find?_some hfind
    have hlength := length_filter_ne hn hj
    rw [hid] at hlength
    refine ⟨hn.sublist (List.filter_sublist.map _), ?_⟩
    dsimp only
    omega
  · exact ⟨hn, rfl⟩

/-- The number that a removal gives is the number of jobs by which it shortens the table. -/
theorem evict_count (hn : t.ids.Nodup) (keep : Duration) (now : Instant) (ids : List String) :
    (t.evict keep now ids).1 + (t.evict keep now ids).2.jobs.length = t.jobs.length := by
  suffices ∀ acc : Nat × JobTable, acc.2.ids.Nodup →
      (ids.foldl (evictOne keep now) acc).1 + (ids.foldl (evictOne keep now) acc).2.jobs.length =
        acc.1 + acc.2.jobs.length by
    simpa [evict] using this (0, t) hn
  induction ids with
  | nil => exact fun _ _ => rfl
  | cons id ids ih =>
    intro acc hacc
    obtain ⟨hnext, hsum⟩ := evictOne_count hacc keep now id
    rw [List.foldl_cons, ih _ hnext, hsum]

/-! ## Which jobs are removed -/

/-- The jobs of a table that are not in another one. -/
def lost (t t' : JobTable) : List Job := t.jobs.filter (fun j => decide (j.id ∉ t'.ids))

theorem lost_eq_nil {t' : JobTable} (h : t.ids ⊆ t'.ids) : t.lost t' = [] := by
  unfold lost
  rw [List.filter_eq_nil_iff]
  intro j hj
  simpa using h (List.mem_map_of_mem hj)

/-- A removal takes the jobs out of the table that it was asked to and that have expired. -/
theorem lost_evict (hn : t.ids.Nodup) (keep : Duration) (now : Instant) (ids : List String) :
    t.lost (t.evict keep now ids).2 =
      t.jobs.filter (fun j => decide (j.id ∈ ids) && j.isExpired keep now) := by
  unfold lost
  refine List.filter_congr fun j hj => ?_
  have hmem : j.id ∈ (t.evict keep now ids).2.ids ↔
      (decide (j.id ∈ ids) && j.isExpired keep now) = false := by
    unfold JobTable.ids
    rw [evict_jobs hn, List.mem_map]
    constructor
    · rintro ⟨k, hk, hid⟩
      obtain ⟨hk, hstays⟩ := List.mem_filter.1 hk
      rw [eq_of_id hn hk hj hid] at hstays
      rwa [Bool.not_eq_true'] at hstays
    · intro hstays
      exact ⟨j, List.mem_filter.2 ⟨hj, by rw [hstays]; rfl⟩, rfl⟩
  rw [decide_not, Bool.eq_iff_iff, Bool.not_eq_true', decide_eq_false_iff_not, hmem,
    Bool.not_eq_false]

theorem length_lost_evict (hn : t.ids.Nodup) (keep : Duration) (now : Instant)
    (ids : List String) :
    (t.lost (t.evict keep now ids).2).length = (t.evict keep now ids).1 := by
  have hcount := evict_count hn keep now ids
  rw [evict_jobs hn] at hcount
  have hsplit := List.length_eq_length_filter_add
    (l := t.jobs) (fun j => decide (j.id ∈ ids) && j.isExpired keep now)
  rw [lost_evict hn]
  omega

/-- Other changes leave all jobs in their places, and may add one at the end. -/
theorem ids_play (hn : t.ids.Nodup) {m : TableMove} (hm : m.isEviction = false) :
    (t.play m).ids = t.ids ++ History.issued [m] := by
  have hp := played hn m
  generalize t.play m = t' at hp
  cases hp with
  | pushed => simp [push, ids, Job.ofRequest]
  | @turned m j k mem turn =>
    have hnone : History.issued [m] = [] := by cases turn <;> rfl
    rw [ids_put, hnone, List.append_nil]
  | evicted => cases hm
  | refused refuses =>
    have hnone : History.issued [m] = [] := by
      cases m with
      | enqueue => exact refuses.elim
      | _ => rfl
    rw [hnone, List.append_nil]

/-- Behind a change, each job that was there before or is asked for is there, or is lost. -/
theorem perm_lost_play (hn : t.ids.Nodup) (m : TableMove) :
    ((t.lost (t.play m)).map (·.id) ++ (t.play m).ids).Perm (t.ids ++ History.issued [m]) := by
  cases hm : m.isEviction with
  | true =>
    cases m with
    | evict keep now ids =>
      have hplay : t.play (.evict keep now ids) = (t.evict keep now ids).2 := rfl
      have hkept : (t.evict keep now ids).2.ids = (t.jobs.filter
          (fun j => !(decide (j.id ∈ ids) && j.isExpired keep now))).map (·.id) := by
        rw [JobTable.ids, evict_jobs hn]
      rw [hplay, lost_evict hn, hkept, ← List.map_append, History.issued_eviction rfl,
        List.append_nil]
      exact (List.filter_append_perm _ t.jobs).map (·.id)
    | _ => cases hm
  | false =>
    rw [ids_play hn hm, lost_eq_nil]
    · rfl
    · rw [ids_play hn hm]
      exact List.subset_append_left _ _

/-! ## A table without some of its jobs -/

/-- The table without the jobs whose ids are named. -/
def without (t : JobTable) (gone : String → Bool) : JobTable :=
  ⟨t.jobs.filter (fun j => !gone j.id)⟩

/-- Only jobs are named that have ended. -/
structure Spent (t : JobTable) (gone : String → Bool) : Prop where
  known : ∀ id, gone id = true → id ∈ t.ids
  terminal : ∀ j ∈ t.jobs, gone j.id = true → j.status.isTerminal = true

variable {gone : String → Bool}

theorem Spent.not_gone (spent : t.Spent gone) {j : Job} (hj : j ∈ t.jobs)
    (hopen : j.status.isTerminal = false) : gone j.id = false := by
  cases hgone : gone j.id with
  | false => rfl
  | true => rw [spent.terminal j hj hgone] at hopen; cases hopen

theorem mem_ids_without {j : Job} (hj : j ∈ t.jobs) :
    j.id ∈ (t.without gone).ids ↔ gone j.id = false := by
  constructor
  · intro hmem
    obtain ⟨k, hk, hid⟩ := List.mem_map.1 hmem
    rw [← hid]
    simpa using (List.mem_filter.1 hk).2
  · intro hgone
    exact List.mem_map_of_mem (List.mem_filter.2 ⟨hj, by rw [hgone]; rfl⟩)

theorem find?_without (t : JobTable) (gone : String → Bool) (id : String) :
    (t.without gone).find? id = if gone id = true then none else t.find? id := by
  unfold find? without
  rw [List.find?_filter]
  split
  · rename_i hgone
    rw [List.find?_eq_none]
    rintro j - h
    simp only [Bool.not_eq_true', decide_eq_true_eq] at h
    rw [h.2, hgone] at h
    cases h.1
  · rename_i hgone
    congr 1
    funext j
    by_cases hid : j.id = id
    · simp [hid, hgone]
    · simp [hid]

/-- Of jobs that have not ended, the same one is found. -/
theorem findIn?_without (spent : t.Spent gone) {status : JobStatus}
    (hopen : status.isTerminal = false) (id : String) :
    (t.without gone).findIn? status id = t.findIn? status id := by
  unfold findIn?
  rw [find?_without]
  split
  · rename_i hgone
    symm
    rw [Option.filter_none, Option.filter_eq_none_iff]
    intro j hfind
    have hj := List.mem_of_find?_eq_some hfind
    have hid : j.id = id := by simpa using List.find?_some hfind
    have := spent.terminal j hj (hid ▸ hgone)
    simp only [decide_eq_true_eq]
    rintro rfl
    rw [hopen] at this
    cases this
  · rfl

theorem isBusy_without (spent : t.Spent gone) (repository : String) :
    (t.without gone).isBusy repository = t.isBusy repository := by
  unfold isBusy without
  rw [List.any_filter, Bool.eq_iff_iff, List.any_eq_true, List.any_eq_true]
  refine exists_congr fun j => and_congr_right fun hj => ?_
  simp only [Bool.and_eq_true, decide_eq_true_eq, Bool.not_eq_true']
  refine and_iff_right_of_imp fun h => spent.not_gone hj ?_
  rw [h.1]
  rfl

theorem next?_without (spent : t.Spent gone) : (t.without gone).next? = t.next? := by
  unfold next?
  simp only [isBusy_without spent]
  unfold without
  rw [List.find?_filter]
  refine List.find?_congr fun j hj => ?_
  by_cases hpending : j.status = .pending
  · simp [spent.not_gone hj (by rw [hpending]; rfl)]
  · simp [hpending]

theorem put_without (t : JobTable) (gone : String → Bool) (j : Job) :
    (t.without gone).put j = (t.put j).without gone := by
  unfold put without
  rw [List.filter_map]
  congr 2
  refine List.filter_congr fun k _ => ?_
  rw [Function.comp_apply]
  split
  · rename_i hid
    rw [hid]
  · rfl

theorem push_without {j : Job} (hj : gone j.id = false) :
    (t.without gone).push j = (t.push j).without gone := by
  unfold push without
  rw [List.filter_append, List.filter_singleton, hj]
  rfl

/-- A change that removes no jobs does the same to the table with and without jobs that have
ended. -/
theorem play_without (spent : t.Spent gone) {m : TableMove} (hm : m.isEviction = false)
    (fresh : ∀ e ∈ m.request?, e.1 ∉ t.ids) :
    (t.without gone).play m = (t.play m).without gone := by
  have hput : ∀ (found : Option Job) (f : Job → Job),
      (found.map fun j => (t.without gone).put (f j)).getD (t.without gone) =
        ((found.map fun j => t.put (f j)).getD t).without gone := by
    intro found f
    cases found with
    | none => rfl
    | some j => exact put_without t gone (f j)
  have hpending : ∀ id, (t.without gone).findIn? .pending id = t.findIn? .pending id :=
    findIn?_without spent rfl
  have hprocessing : ∀ id, (t.without gone).findIn? .processing id = t.findIn? .processing id :=
    findIn?_without spent rfl
  cases m with
  | enqueue id request now =>
    refine push_without ?_
    rw [Bool.eq_false_iff]
    exact fun hgone => fresh _ rfl (spent.known id hgone)
  | cancel id now =>
    simp only [play, JobTable.cancel, hpending]
    exact hput _ _
  | report id value extra =>
    simp only [play, JobTable.report, hprocessing, Option.map_map]
    exact hput _ _
  | claim now =>
    simp only [play, JobTable.claim, next?_without spent, Option.map_map]
    exact hput _ _
  | finish id outcome now =>
    simp only [play, JobTable.finish, hprocessing, Option.map_map]
    exact hput _ _
  | evict => cases hm

/-- The named jobs and, of others with the ids, those that are kept no longer. -/
def goneWith (t : JobTable) (gone : String → Bool) (keep : Duration) (now : Instant)
    (ids : List String) (id : String) : Bool :=
  gone id || decide (id ∈ ids) && (t.find? id).any (·.isExpired keep now)

theorem goneWith_id {ids : List String} (hn : t.ids.Nodup) {j : Job} (hj : j ∈ t.jobs) :
    t.goneWith gone keep now ids j.id =
      (gone j.id || decide (j.id ∈ ids) && j.isExpired keep now) := by
  obtain ⟨k, hfind⟩ : ∃ k, t.find? j.id = some k := by
    rw [← Option.isSome_iff_exists]
    exact List.find?_isSome.2 ⟨j, hj, by simp⟩
  have hid : k.id = j.id := by simpa using List.find?_some hfind
  obtain rfl := eq_of_id hn (List.mem_of_find?_eq_some hfind) hj hid
  rw [goneWith, hfind, Option.any_some]

theorem Spent.goneWith (spent : t.Spent gone) (hn : t.ids.Nodup) (keep : Duration) (now : Instant)
    (ids : List String) : t.Spent (t.goneWith gone keep now ids) where
  known id hid := by
    rcases Bool.or_eq_true_iff.1 hid with hgone | hexpired
    · exact spent.known id hgone
    · obtain ⟨j, hfind, -⟩ := Option.any_eq_true _ _ |>.1 (Bool.and_eq_true_iff.1 hexpired).2
      have hj : j.id = id := by simpa using List.find?_some hfind
      exact hj ▸ List.mem_map_of_mem (List.mem_of_find?_eq_some hfind)
  terminal j hj hgone := by
    rw [goneWith_id hn hj] at hgone
    rcases Bool.or_eq_true_iff.1 hgone with hgone | hexpired
    · exact spent.terminal j hj hgone
    · exact (Job.isExpired_iff.1 (Bool.and_eq_true_iff.1 hexpired).2).terminal

theorem evict_without (hn : t.ids.Nodup) (gone : String → Bool) (keep : Duration) (now : Instant)
    (ids : List String) : (t.without gone).play (.evict keep now ids) =
      t.without (t.goneWith gone keep now ids) := by
  have hn' : (t.without gone).ids.Nodup := hn.sublist (List.filter_sublist.map _)
  have hjobs := evict_jobs hn' keep now ids
  unfold without at hjobs ⊢
  rw [List.filter_filter] at hjobs
  refine congrArg JobTable.mk (hjobs.trans (List.filter_congr fun j hj => ?_))
  rw [goneWith_id hn hj]
  cases gone j.id <;> simp

end JobTable

/-! ## Histories without removals -/

namespace History

/-- The history as it would be if nobody had removed old jobs. -/
def unswept (h : History) : History := h.filter (fun m => !m.isEviction)

theorem unswept_snoc (h : History) (m : TableMove) :
    unswept (h ++ [m]) = if m.isEviction = true then h.unswept else h.unswept ++ [m] := by
  unfold unswept
  rw [List.filter_append, List.filter_singleton]
  cases m.isEviction <;> simp

theorem issued_unswept (h : History) : h.unswept.issued = h.issued := by
  induction h using List.reverseRecOn with
  | nil => rfl
  | append_singleton h m ih =>
    rw [unswept_snoc]
    split
    · rename_i hm
      rw [issued_append, issued_eviction hm, List.append_nil, ih]
    · rw [issued_append, issued_append, ih]

/-- Without removals all jobs that were asked for are in the table. -/
theorem ids_unswept {h : History} (fresh : h.Fresh) : (table (unswept h)).ids = h.issued := by
  induction h using List.reverseRecOn with
  | nil => rfl
  | append_singleton h m ih =>
    have ih := ih fresh.of_append
    have hn : (table (unswept h)).ids.Nodup := by rw [ih]; exact fresh.of_append
    rw [issued_append, ← ih, unswept_snoc]
    split
    · rename_i hm
      rw [issued_eviction hm, List.append_nil]
    · rename_i hm
      rw [table_snoc, JobTable.ids_play hn (by simpa using hm)]

/-- A request has an id that is new to the table without removals. -/
theorem request_new {h : History} {m : TableMove} (fresh : Fresh (h ++ [m])) :
    ∀ e ∈ m.request?, e.1 ∉ (table (unswept h)).ids := by
  intro e he
  rw [ids_unswept fresh.of_append]
  cases m with
  | enqueue id request now =>
    obtain rfl := Option.some.inj he
    exact not_issued fresh
  | _ => cases he

/-- What has ended stays so, and stays in the table when nothing is removed. -/
theorem spent_snoc {h : History} {m : TableMove} {gone : String → Bool} (fresh : Fresh (h ++ [m]))
    (hm : m.isEviction = false) (hn : h.table.ids.Nodup) (hnew : ∀ e ∈ m.request?, e.1 ∉ h.table.ids)
    (spent : h.table.Spent gone) : (table (h ++ [m])).Spent gone where
  known id hgone := by
    rw [table_snoc, JobTable.ids_play hn hm]
    exact List.mem_append_left _ (spent.known id hgone)
  terminal k hk hgone := by
    rcases evolved_or_new fresh hk with ⟨j, hj, hjk⟩ | ⟨request, now, rfl, -⟩
    · have hended := spent.terminal j hj (hjk.id ▸ hgone)
      rw [hjk.terminal hended]
      exact hended
    · exact absurd (spent.known k.id hgone) (hnew _ rfl)

/-- The jobs of the table have the records that they would have without removals, and stand in the
same order; what is not there any more has ended. -/
theorem table_eq_without {h : History} (fresh : h.Fresh) :
    ∃ gone, (table (unswept h)).Spent gone ∧ h.table = (table (unswept h)).without gone := by
  induction h using List.reverseRecOn with
  | nil => exact ⟨fun _ => false, ⟨by simp, by simp⟩, rfl⟩
  | append_singleton h m ih =>
    obtain ⟨gone, spent, htable⟩ := ih fresh.of_append
    have hn : (table (unswept h)).ids.Nodup := by rw [ids_unswept fresh.of_append]; exact fresh.of_append
    cases hm : m.isEviction with
    | true =>
      rw [unswept_snoc, if_pos hm, table_snoc, htable]
      cases m with
      | evict keep now ids =>
        exact ⟨_, spent.goneWith hn keep now ids, JobTable.evict_without hn gone keep now ids⟩
      | _ => cases hm
    | false =>
      have hunswept : unswept (h ++ [m]) = unswept h ++ [m] := by rw [unswept_snoc, hm]; rfl
      have fresh' : Fresh (unswept h ++ [m]) := by
        rw [← hunswept, Fresh, issued_unswept]
        exact fresh
      refine ⟨gone, ?_, ?_⟩
      · rw [hunswept]
        exact spent_snoc fresh' hm hn (request_new fresh) spent
      · rw [hunswept, table_snoc, table_snoc, htable]
        exact JobTable.play_without spent hm (request_new fresh)

end History

end CodeSurvey
