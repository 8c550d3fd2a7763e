-- Histories of the table of jobs. A history is any row of changes that callers,
-- the drain and the tasks ask of the table, each of which happens at once. What
-- one change can do is said once, in `Played`; all laws of the table are drawn
-- from that.
import CodeSurvey.Job.Table
import Mathlib.Data.List.Nodup
import Mathlib.Data.List.Infix
import Mathlib.Data.List.Induction
import Mathlib.Tactic.Common

namespace CodeSurvey

/-! ## Changes of the table -/

/-- A change that is asked of the table of jobs. -/
inductive TableMove where
  | enqueue (id : String) (request : JobRequest) (now : Instant)
  | cancel (id : String) (now : Instant)
  | report (id : String) (value : Int64) (extra : Option Json)
  | claim (now : Instant)
  | finish (id : String) (outcome : Outcome) (now : Instant)
  | evict (keep : Duration) (now : Instant) (ids : List String)

/-- The job that a change asks for, with its id. -/
@[simp] def TableMove.request? : TableMove → Option (String × JobRequest)
  | enqueue id request _ => some (id, request)
  | _ => none

namespace JobTable

/-- The table after a change. A change that is refused leaves it as it is. -/
def play (t : JobTable) : TableMove → JobTable
  | .enqueue id request now => t.push (.ofRequest id now request)
  | .cancel id now => (t.cancel now id).getD t
  | .report id value extra => ((t.report id value extra).map (·.1)).getD t
  | .claim now => ((t.claim now).map (·.2)).getD t
  | .finish id outcome now => ((t.finish now id outcome).map (·.1)).getD t
  | .evict keep now ids => (t.evict keep now ids).2

/-- The ids of the jobs, in the order of the table. -/
def ids (t : JobTable) : List String := t.jobs.map (·.id)

end JobTable

/-- What was asked of the table so far, oldest first. -/
abbrev History := List TableMove

namespace History

/-- The table after all changes. -/
def table (h : History) : JobTable := h.foldl JobTable.play .empty

/-- The jobs that were asked for, with their ids, oldest first. -/
def requests (h : History) : List (String × JobRequest) := h.filterMap TableMove.request?

/-- The ids that were given to jobs, oldest first. -/
def issued (h : History) : List String := h.requests.map (·.1)

/-- No id was given to two jobs. -/
def Fresh (h : History) : Prop := h.issued.Nodup

@[simp] theorem table_nil : table [] = .empty := rfl

@[simp] theorem table_snoc (h : History) (m : TableMove) : table (h ++ [m]) = h.table.play m := by
  simp [table]

@[simp] theorem requests_nil : requests [] = [] := rfl

@[simp] theorem requests_append (h g : History) : requests (h ++ g) = h.requests ++ requests g := by
  simp [requests]

@[simp] theorem issued_nil : issued [] = [] := rfl

@[simp] theorem issued_cons (m : TableMove) (h : History) :
    issued (m :: h) = m.request?.toList.map (·.1) ++ issued h := by
  unfold issued requests
  rw [List.filterMap_cons]
  cases m.request? <;> rfl

@[simp] theorem issued_append (h g : History) : issued (h ++ g) = h.issued ++ issued g := by
  simp [issued]

theorem Fresh.of_append {h g : History} (fresh : Fresh (h ++ g)) : h.Fresh := by
  unfold Fresh at *
  rw [issued_append] at fresh
  exact (List.nodup_append.mp fresh).1

end History

/-- An item of a row that grew by one is the new one, or it was there before. -/
theorem split_snoc {α : Type} {xs before after : List α} {x y : α}
    (h : xs ++ [x] = before ++ y :: after) :
    (before = xs ∧ y = x ∧ after = []) ∨ ∃ rest, after = rest ++ [x] ∧ xs = before ++ y :: rest := by
  rcases List.eq_nil_or_concat after with rfl | ⟨rest, last, rfl⟩
  · obtain ⟨rfl, heq⟩ := List.append_inj' h rfl
    exact .inl ⟨rfl, (List.singleton_inj.1 heq).symm, rfl⟩
  · rw [List.concat_eq_append, ← List.cons_append, ← List.append_assoc] at h
    obtain ⟨rfl, hlast⟩ := List.append_inj' h rfl
    obtain rfl := List.singleton_inj.1 hlast
    exact .inr ⟨rest, List.concat_eq_append, rfl⟩

/-! ## What one change can do -/

namespace JobTable

theorem findIn?_eq_some {t : JobTable} {status : JobStatus} {id : String} {j : Job}
    (h : t.findIn? status id = some j) : j ∈ t.jobs ∧ j.id = id ∧ j.status = status := by
  unfold findIn? find? at h
  rw [Option.filter_eq_some_iff] at h
  obtain ⟨hfind, hstatus⟩ := h
  exact ⟨List.mem_of_find?_eq_some hfind, by simpa using List.find?_some hfind,
    by simpa using hstatus⟩

theorem findIn?_eq_none {t : JobTable} {status : JobStatus} {id : String} (hn : t.ids.Nodup)
    (h : t.findIn? status id = none) : ∀ j ∈ t.jobs, j.id = id → j.status ≠ status := by
  intro j hj hid hs
  have hfind : t.find? id = some j := by
    unfold find?
    rw [List.find?_eq_some_iff_append]
    obtain ⟨before, after, hsplit⟩ := List.append_of_mem hj
    refine ⟨by simp [hid], before, after, hsplit, ?_⟩
    intro k hk
    have hne : k.id ≠ j.id := by
      simp only [ids, hsplit, List.map_append, List.map_cons] at hn
      exact (List.nodup_append.mp hn).2.2 _ (List.mem_map_of_mem hk) _ (List.mem_cons_self ..)
    simpa [← hid] using hne
  simp [findIn?, hfind, hs] at h

theorem next?_eq_some {t : JobTable} {j : Job} (h : t.next? = some j) :
    j ∈ t.jobs ∧ j.status = .pending ∧ t.isBusy j.repository = false := by
  have hp := List.find?_some h
  simp only [Bool.and_eq_true, decide_eq_true_eq, Bool.not_eq_true'] at hp
  exact ⟨List.mem_of_find?_eq_some h, hp⟩

end JobTable

/-- How a change alters the one job that it is about. -/
inductive Job.Turn (t : JobTable) : TableMove → Job → Job → Prop
  | withdrawn {j : Job} {now : Instant} (pending : j.status = .pending) :
      Turn t (.cancel j.id now) j (j.withdrawn now)
  | reported {j : Job} {value : Int64} {extra : Option Json} (processing : j.status = .processing) :
      Turn t (.report j.id value extra) j (j.reported value extra)
  | begun {j : Job} {now : Instant} (next : t.next? = some j) : Turn t (.claim now) j (j.begun now)
  | ended {j : Job} {outcome : Outcome} {now : Instant} (processing : j.status = .processing) :
      Turn t (.finish j.id outcome now) j (j.ended now outcome)

/-- A turn keeps what was asked for. -/
theorem Job.Turn.same {t : JobTable} {m : TableMove} {j k : Job} (h : Job.Turn t m j k) :
    k.id = j.id ∧ k.type = j.type ∧ k.repository = j.repository ∧ k.createdAt = j.createdAt := by
  cases h with
  | withdrawn => simp [Job.withdrawn]
  | reported => simp [Job.reported]
  | begun => simp [Job.begun]
  | @ended j outcome =>
    unfold Job.ended
    cases outcome.failure? <;> simp

/-- The table refuses a change. A new job and the removal of old ones are never refused. -/
def JobTable.Refuses (t : JobTable) : TableMove → Prop
  | .enqueue _ _ _ => False
  | .cancel id now => t.cancel now id = none
  | .report id value extra => t.report id value extra = none
  | .claim now => t.claim now = none
  | .finish id outcome now => t.finish now id outcome = none
  | .evict _ _ _ => False

/-- All that a change can do to the table: a job more at the end, one job altered in its place,
old jobs removed, or nothing. -/
inductive JobTable.Played (t : JobTable) : TableMove → JobTable → Prop
  | pushed {id : String} {request : JobRequest} {now : Instant} :
      Played t (.enqueue id request now) (t.push (.ofRequest id now request))
  | turned {m : TableMove} {j k : Job} (mem : j ∈ t.jobs) (turn : Job.Turn t m j k) :
      Played t m (t.put k)
  | evicted {keep : Duration} {now : Instant} {ids : List String} :
      Played t (.evict keep now ids)
        ⟨t.jobs.filter (fun j => !(decide (j.id ∈ ids) && j.isExpired keep now))⟩
  | refused {m : TableMove} (refuses : t.Refuses m) : Played t m t

namespace JobTable

theorem eq_of_id {t : JobTable} (hn : t.ids.Nodup) {j k : Job} (hj : j ∈ t.jobs)
    (hk : k ∈ t.jobs) (hid : j.id = k.id) : j = k :=
  List.inj_on_of_nodup_map hn hj hk hid

/-- Of the jobs with the ids, those that are kept no longer are removed. -/
theorem evict_jobs {t : JobTable} (hn : t.ids.Nodup) (keep : Duration) (now : Instant)
    (ids : List String) :
    (t.evict keep now ids).2.jobs =
      t.jobs.filter (fun j => !(decide (j.id ∈ ids) && j.isExpired keep now)) := by
  unfold evict
  induction ids using List.reverseRecOn with
  | nil => simp
  | append_singleton ids id ih =>
    rw [List.foldl_append, List.foldl_cons, List.foldl_nil]
    generalize List.foldl (evictOne keep now) (0, t) ids = acc at ih
    unfold evictOne
    split
    · rename_i hexp
      simp only [ih, List.filter_filter]
      apply List.filter_congr
      intro k hk
      simp only [find?, Option.any_eq_true] at hexp
      obtain ⟨j, hfind, hj⟩ := hexp
      have hjt : j ∈ t.jobs := by
        have := List.mem_of_find?_eq_some hfind
        rw [ih] at this
        exact (List.mem_filter.mp this).1
      have hjid : j.id = id := by simpa using List.find?_some hfind
      by_cases hkid : k.id = id
      · have hkj : k = j := eq_of_id hn hk hjt (hkid.trans hjid.symm)
        subst hkj
        simp [hkid, hj]
      · simp [hkid]
    · rename_i hexp
      rw [ih]
      apply List.filter_congr
      intro k hk
      by_cases hkid : k.id = id
      · -- a job with this id that had to go would have been found
        by_cases hke : k.isExpired keep now = true
        · by_cases hmem : k.id ∈ ids
          · simp [hmem, hke]
          · exfalso
            apply hexp
            have hka : k ∈ acc.2.jobs := by rw [ih]; simp [hk, hmem]
            simp only [find?, Option.any_eq_true]
            obtain ⟨j, hfind⟩ : ∃ j, acc.2.jobs.find? (·.id = id) = some j := by
              rw [← Option.isSome_iff_exists, List.find?_isSome]
              exact ⟨k, hka, by simpa using hkid⟩
            have hjt : j ∈ t.jobs := by
              have := List.mem_of_find?_eq_some hfind
              rw [ih] at this
              exact (List.mem_filter.mp this).1
            have hjid : j.id = id := by simpa using List.find?_some hfind
            have hjk : j = k := eq_of_id hn hjt hk (hjid.trans hkid.symm)
            exact ⟨j, hfind, hjk ▸ hke⟩
        · simp [hke]
      · simp [hkid]

/-- A change does one of the things that `Played` lists. -/
theorem played {t : JobTable} (hn : t.ids.Nodup) (m : TableMove) : t.Played m (t.play m) := by
  cases m with
  | enqueue id request now => exact .pushed
  | cancel id now =>
    simp only [play, JobTable.cancel]
    cases h : t.findIn? .pending id with
    | none => exact .refused (by simp [Refuses, JobTable.cancel, h])
    | some j =>
      obtain ⟨hj, rfl, hs⟩ := findIn?_eq_some h
      exact .turned hj (.withdrawn hs)
  | report id value extra =>
    simp only [play, JobTable.report]
    cases h : t.findIn? .processing id with
    | none => exact .refused (by simp [Refuses, JobTable.report, h])
    | some j =>
      obtain ⟨hj, rfl, hs⟩ := findIn?_eq_some h
      exact .turned hj (.reported hs)
  | claim now =>
    simp only [play, JobTable.claim]
    cases h : t.next? with
    | none => exact .refused (by simp [Refuses, JobTable.claim, h])
    | some j => exact .turned (next?_eq_some h).1 (.begun h)
  | finish id outcome now =>
    simp only [play, JobTable.finish]
    cases h : t.findIn? .processing id with
    | none => exact .refused (by simp [Refuses, JobTable.finish, h])
    | some j =>
      obtain ⟨hj, rfl, hs⟩ := findIn?_eq_some h
      exact .turned hj (.ended hs)
  | evict keep now ids =>
    have h : t.play (.evict keep now ids) = ⟨t.jobs.filter
        (fun j => !(decide (j.id ∈ ids) && j.isExpired keep now))⟩ := by
      rw [← evict_jobs hn]
      rfl
    rw [h]
    exact .evicted

/-! ## Where a job stands after a change -/

@[simp] theorem ids_put (t : JobTable) (j : Job) : (t.put j).ids = t.ids := by
  unfold put ids
  rw [List.map_map]
  apply List.map_congr_left
  intro k _
  simp only [Function.comp_apply]
  split
  · rename_i h
    exact h.symm
  · rfl

theorem mem_put {t : JobTable} {j k : Job} (hn : t.ids.Nodup) (hj : j ∈ t.jobs)
    (hid : k.id = j.id) {i : Job} : i ∈ (t.put k).jobs ↔ i = k ∨ (i ∈ t.jobs ∧ i ≠ j) := by
  unfold put
  simp only [List.mem_map]
  constructor
  · rintro ⟨i, hi, rfl⟩
    split
    · exact Or.inl rfl
    · rename_i hne
      exact Or.inr ⟨hi, fun h => hne (h ▸ hid.symm)⟩
  · rintro (rfl | ⟨hi, hne⟩)
    · exact ⟨j, hj, by simp [hid]⟩
    · refine ⟨i, hi, ?_⟩
      rw [if_neg]
      intro h
      exact hne (eq_of_id hn hi hj (h.trans hid))

end JobTable

namespace History

/-- The jobs of the table stand in the order in which they were asked for. -/
theorem ids_sublist (h : History) (fresh : h.Fresh) : h.table.ids.Sublist h.issued := by
  induction h using List.reverseRecOn with
  | nil => simp [JobTable.ids, JobTable.empty]
  | append_singleton h m ih =>
    have ih := ih fresh.of_append
    have hn : (table h).ids.Nodup := fresh.of_append.sublist ih
    have hp := JobTable.played hn m
    rw [table_snoc, issued_append]
    generalize (table h).play m = t at hp
    cases hp with
    | @pushed id request now =>
      simp only [JobTable.push, JobTable.ids, List.map_append]
      exact ih.append (List.Sublist.refl [id])
    | turned =>
      rw [JobTable.ids_put]
      exact ih.trans (List.sublist_append_left ..)
    | evicted =>
      exact ((List.filter_sublist.map _).trans ih).trans (List.sublist_append_left ..)
    | refused => exact ih.trans (List.sublist_append_left ..)

theorem ids_nodup (h : History) (fresh : h.Fresh) : h.table.ids.Nodup :=
  fresh.sublist (ids_sublist h fresh)

theorem issued_of_mem {h : History} (fresh : h.Fresh) {j : Job} (hj : j ∈ h.table.jobs) :
    j.id ∈ h.issued :=
  (ids_sublist h fresh).subset (List.mem_map_of_mem hj)

/-- The id of a new job is the id of no other job of the table. -/
theorem not_issued {h : History} {id : String} {request : JobRequest} {now : Instant}
    (fresh : Fresh (h ++ [.enqueue id request now])) : id ∉ h.issued := by
  unfold Fresh at fresh
  rw [issued_append] at fresh
  intro hid
  exact (List.nodup_append.mp fresh).2.2 id hid id (by simp) rfl

end History

end CodeSurvey
