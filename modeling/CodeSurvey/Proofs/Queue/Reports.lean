-- Reports on jobs in a running queue. A caller may report on any job at any time,
-- and the handler of a job reports on it too; a report is noted exactly while the
-- job is worked on, and the record of the job is what the noted reports add up to,
-- whatever else is done to the queue in between.
import CodeSurvey.Proofs.Job.Noted
import CodeSurvey.Proofs.Queue.Slots
import CodeSurvey.Proofs.Queue.Telling

namespace CodeSurvey

/-! ## Data of one job -/

/-- A turn of a job leaves its data, but for a report that carries an extra. -/
theorem Job.Turn.data {t : JobTable} {m : TableMove} {j k : Job} (turn : Job.Turn t m j k) :
    k.data = j.data ∨ ∃ value extra, m = .report j.id value (some extra) ∧
      j.status = .processing ∧ k.data = j.data.merge extra := by
  cases turn with
  | withdrawn | begun => exact .inl rfl
  | @reported _ value extra processing =>
    cases extra with
    | none => exact .inl rfl
    | some extra => exact .inr ⟨value, extra, rfl, processing, rfl⟩
  | ended =>
    left
    unfold Job.ended
    split <;> rfl

/-- A change of the table leaves the data of each job, but for a report that carries an extra. -/
theorem JobTable.data_of_play {t : JobTable} (hn : t.ids.Nodup) (m : TableMove) {j k : Job}
    (hj : j ∈ t.jobs) (hk : k ∈ (t.play m).jobs) (hid : k.id = j.id)
    (hnew : ∀ request, m.request? ≠ some (j.id, request)) :
    k.data = j.data ∨ ∃ value extra, m = .report j.id value (some extra) ∧
      j.status = .processing ∧ k.data = j.data.merge extra := by
  have hp := played hn m
  generalize t.play m = t' at hp hk
  cases hp with
  | @pushed id request now =>
    rcases List.mem_append.1 hk with hk | hk
    · exact .inl (congrArg _ (eq_of_id hn hk hj hid))
    · rw [List.mem_singleton.1 hk] at hid
      exact absurd (congrArg (fun i => some (i, request)) hid) (hnew request)
  | @turned _ i i' mem turn =>
    rcases (mem_put hn mem turn.same.1).1 hk with rfl | ⟨hk, -⟩
    · obtain rfl := eq_of_id hn mem hj (turn.same.1.symm.trans hid)
      exact turn.data
    · exact .inl (congrArg _ (eq_of_id hn hk hj hid))
  | evicted => exact .inl (congrArg _ (eq_of_id hn (List.mem_filter.1 hk).1 hj hid))
  | refused => exact .inl (congrArg _ (eq_of_id hn hk hj hid))

namespace Queue

variable {σ : Type} {settings : QueueSettings} {shared : σ} {run : List (Passage σ)} {q : Queue σ}

/-! ## Reports of callers and of handlers -/

/-- A report of a caller on a job that is worked on is noted. -/
theorem step_report_of_stands (hn : q.table.ids.Nodup) {id : String}
    (h : q.table.Stands id .processing) (value : Int64) (extra : Option Json) :
    ∃ q', q.step (.report id value extra) = some ([.answered true], q') ∧
      ∃ j ∈ q.table.jobs, j.id = id ∧ q'.table = q.table.put (j.reported value extra) := by
  obtain ⟨j, hj, hid, -, event, hreport⟩ := JobTable.report_of_stands hn h value extra
  exact ⟨_, by simp [step, report, hreport]; rfl, j, hj, hid, rfl⟩

/-- A report of a caller on any other job changes nothing. -/
theorem step_report_of_not_stands {id : String} (h : ¬ q.table.Stands id .processing)
    (value : Int64) (extra : Option Json) :
    q.step (.report id value extra) = some ([.answered false], q) := by
  simp [step, report, JobTable.report_of_not_stands h]

/-- A report that the handler of a job makes is always noted: the job is worked on. -/
theorem step_own_report (reached : Reached settings shared (history run) q) {n : Nat} {id : String}
    {value : Int64} {extra : Option Json} {rest : Work σ}
    (ht : q.tasks[n]? = some ⟨id, .running (.report value extra rest)⟩) (now : Instant) :
    ∃ signals q', q.step (.advance n now) = some (signals, q') ∧
      ∃ j ∈ q.table.jobs, j.id = id ∧ j.status = .processing ∧
        q'.table = q.table.put (j.reported value extra) := by
  have hstands : q.table.Stands id .processing :=
    (reached.accounted.owned id).1 (.inr ⟨_, List.mem_of_getElem? ht, rfl, rfl⟩)
  obtain ⟨j, hj, hid, hs, event, hreport⟩ :=
    JobTable.report_of_stands reached.ids_nodup hstands value extra
  cases event with
  | none => exact ⟨[], _, by simp [step, advance, ht, hreport]; rfl, j, hj, hid, hs, rfl⟩
  | some e => exact ⟨[], _, by simp [step, advance, ht, hreport]; rfl, j, hj, hid, hs, rfl⟩

/-! ## The law -/

/-- A step leaves the data of each job, but for a report that is noted and carries an extra. -/
theorem Run.data_of_step (h : Run settings shared run q) {p : Passage σ} (hp : p ∈ run) {j k : Job}
    (hj : j ∈ p.before.table.jobs) (hk : k ∈ p.after.table.jobs) (hid : k.id = j.id) :
    k.data = j.data ∨ ∃ value extra,
      p.before.tableMove? p.move = some (.report j.id value (some extra)) ∧
        j.status = .processing ∧ k.data = j.data.merge extra := by
  obtain ⟨past, hpast, made⟩ := h.made_of_mem hp
  have hn := hpast.reached.ids_nodup
  have fresh := (hpast.reached.step made).table.2.2
  rw [(step_table made).1, tableAfter] at hk
  cases hm : p.before.tableMove? p.move with
  | none =>
    rw [hm] at hk
    exact .inl (congrArg _ (JobTable.eq_of_id hn hk hj hid))
  | some m =>
    rw [hm, Option.toList_some] at fresh
    rw [hm] at hk
    have hissued := History.issued_of_mem fresh.of_append (hpast.reached.table.1 ▸ hj)
    have hnew : ∀ request, m.request? ≠ some (j.id, request) := by
      intro request hrequest
      cases m with
      | enqueue id r now =>
        obtain rfl : id = j.id := (Prod.mk.inj (Option.some.inj hrequest)).1
        exact History.not_issued fresh hissued
      | _ => cases hrequest
    obtain hsame | ⟨value, extra, rfl, hs, hdata⟩ := JobTable.data_of_play hn m hj hk hid hnew
    · exact .inl hsame
    · exact .inr ⟨value, extra, rfl, hs, hdata⟩

/-- The progress of a job is the largest value reported, and its data are all that was reported. In
every run a report of a caller, with whatever value, is answered with yes and noted exactly when the
job is worked on, and else changes nothing; the reports of handlers are always noted. While a job is
worked on its progress is the largest of zero and the noted values, each cut to the range, in
whatever order they came; and its data are those that it was asked for with, which took the noted
extras one after the other, key by key where both are objects. No other step changes data. -/
theorem reports_add_up (h : Run settings shared run q) :
    (∀ id value extra,
      (q.table.Stands id .processing →
        ∃ q', q.step (.report id value extra) = some ([.answered true], q') ∧
          ∃ j ∈ q.table.jobs, j.id = id ∧ q'.table = q.table.put (j.reported value extra)) ∧
      (¬ q.table.Stands id .processing →
        q.step (.report id value extra) = some ([.answered false], q))) ∧
    (∀ n id value extra rest now,
      q.tasks[n]? = some ⟨id, .running (.report value extra rest)⟩ →
        ∃ signals q', q.step (.advance n now) = some (signals, q') ∧
          ∃ j ∈ q.table.jobs, j.id = id ∧ j.status = .processing ∧
            q'.table = q.table.put (j.reported value extra)) ∧
    (∀ j ∈ q.table.jobs,
      (j.status = .processing →
        ∀ reports, reports.Perm ((history run).noted j.id) → IsLargestOf reports j.progress) ∧
      ∃ request, (j.id, request) ∈ (history run).requests ∧
        j.data = addedBy ((history run).noted j.id) request.payload) ∧
    (∀ p ∈ run, ∀ j ∈ p.before.table.jobs, ∀ k ∈ p.after.table.jobs, k.id = j.id →
      k.data = j.data ∨ ∃ value extra,
        p.before.tableMove? p.move = some (.report j.id value (some extra)) ∧
          j.status = .processing ∧ k.data = j.data.merge extra) ∧
    ∀ data extra : Json, data.TakesIn extra (data.merge extra) := by
  obtain ⟨htable, -, fresh⟩ := h.reached.table
  refine ⟨fun id value extra => ⟨fun hs => ?_, fun hs => ?_⟩, ?_, fun j hj => ?_, ?_,
    Json.takesIn_merge⟩
  · exact step_report_of_stands h.reached.ids_nodup hs value extra
  · exact step_report_of_not_stands hs value extra
  · intro n id value extra rest now ht
    exact step_own_report h.reached ht now
  · have sum := History.addsUp _ fresh j (htable ▸ hj)
    exact ⟨fun hs reports hperm => (isLargestOf_perm hperm).2 (sum.progress hs), sum.data⟩
  · intro p hp j hj k hk hid
    exact h.data_of_step hp hj hk hid

/-- A caller reports on a job before, during and after the work on it, in which its handler reports
too. -/
def reportedThroughout : List (Move Unit) :=
  [.register "work" (fun _ s =>
      (.report 30 (some (.object [("b", .bool true)])) (.report 10 none (.finish .succeeded)), s)),
    .start, .enqueue "a" ⟨"work", "r", .object [("a", .null)]⟩ ⟨0⟩, .report "a" 80 (some .null)] ++
  List.replicate 4 (.drainOn ⟨1⟩) ++
  [.advance 0 ⟨2⟩, .advance 0 ⟨2⟩, .report "a" 250 (some (.object [("a", .bool false)])),
    .advance 0 ⟨2⟩, .advance 0 ⟨2⟩, .report "a" (-5) none]

theorem reports_add_up_throughout :
    ∃ run q, Run oneSlot () run q ∧
      ((history run).noted "a").map (·.value) = [30, 250, 10, -5] ∧
      q.table.jobs.map (·.progress) = [99] ∧
      q.table.jobs.map (·.data) = [.object [("a", .bool false), ("b", .bool true)]] ∧
      (∀ j ∈ q.table.jobs, j.status = .processing →
        ∀ reports, reports.Perm ((history run).noted j.id) → IsLargestOf reports j.progress) ∧
      q.step (.report "b" 1 none) = some ([.answered false], q) := by
  have all : (walk? reportedThroughout (fresh oneSlot ())).isSome := by rfl
  have h := Run.fresh.walk (Option.some_get all).symm
  obtain ⟨hanswers, -, hsums, -⟩ := reports_add_up h
  refine ⟨_, _, h, by rfl, by rfl, by rfl, fun j hj => (hsums j hj).1, (hanswers "b" 1 none).2 ?_⟩
  rintro ⟨j, hj, hid, -⟩
  have hids : ((walk? reportedThroughout (fresh oneSlot ())).get all).2.table.ids = ["a"] := by rfl
  have hmem : j.id ∈ ["a"] := hids ▸ List.mem_map_of_mem hj
  rw [hid] at hmem
  exact absurd hmem (by decide)

end Queue

end CodeSurvey
