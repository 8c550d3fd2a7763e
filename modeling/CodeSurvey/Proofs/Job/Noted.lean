-- The reports on a job that the table notes. Only while a job is worked on is a
-- report noted; its progress is then the largest value that was noted, cut to the
-- range, in whatever order the values came, and its data are those that it was
-- asked for with and what all noted reports added, in their order.
import CodeSurvey.Proofs.Job.Events
import CodeSurvey.Proofs.Json.Merge
import CodeSurvey.Queue.Work
import Mathlib.Order.Bounds.Basic

namespace CodeSurvey

/-! ## Reports that are noted -/

namespace JobTable

/-- The report on the job with the id that a change makes, where the table notes it. -/
def noted? (t : JobTable) (id : String) : TableMove → Option Report
  | .report i value extra =>
    if i = id then (t.report id value extra).map (fun _ => ⟨value, extra⟩) else none
  | _ => none

theorem noted?_eq_some {t : JobTable} {id : String} {m : TableMove} {r : Report}
    (h : t.noted? id m = some r) :
    m = .report id r.value r.extra ∧ t.Stands id .processing := by
  cases m with
  | report i value extra =>
    simp only [noted?] at h
    split at h
    · rename_i hid
      subst hid
      obtain ⟨noted, hnoted, rfl⟩ := Option.map_eq_some_iff.1 h
      obtain ⟨j, hj, -⟩ := Option.map_eq_some_iff.1 hnoted
      exact ⟨rfl, j, findIn?_eq_some hj⟩
    · cases h
  | _ => cases h

/-- A report on a job that is worked on is noted, and only that job is altered. -/
theorem report_of_stands {t : JobTable} (hn : t.ids.Nodup) {id : String}
    (h : t.Stands id .processing) (value : Int64) (extra : Option Json) :
    ∃ j ∈ t.jobs, j.id = id ∧ j.status = .processing ∧
      ∃ event, t.report id value extra = some (t.put (j.reported value extra), event) := by
  obtain ⟨j, hj, rfl, hs⟩ := h
  have hfind := findIn?_of_mem hn hj
  rw [hs] at hfind
  exact ⟨j, hj, rfl, hs, _, by rw [report, hfind, Option.map_some]⟩

/-- A report on any other job is refused. -/
theorem report_of_not_stands {t : JobTable} {id : String} (h : ¬ t.Stands id .processing)
    (value : Int64) (extra : Option Json) : t.report id value extra = none := by
  unfold report
  cases hfind : t.findIn? .processing id with
  | none => rfl
  | some j => exact absurd ⟨j, findIn?_eq_some hfind⟩ h

theorem noted?_of_stands {t : JobTable} (hn : t.ids.Nodup) {id : String}
    (h : t.Stands id .processing) (value : Int64) (extra : Option Json) :
    t.noted? id (.report id value extra) = some ⟨value, extra⟩ := by
  obtain ⟨j, -, -, -, event, hreport⟩ := report_of_stands hn h value extra
  rw [noted?, if_pos rfl, hreport, Option.map_some]

theorem noted?_of_refuses {t : JobTable} {m : TableMove} (h : t.Refuses m) (id : String) :
    t.noted? id m = none := by
  cases m with
  | report i value extra =>
    have hrefused : t.report i value extra = none := h
    rw [noted?]
    split
    · rename_i hid
      rw [← hid, hrefused, Option.map_none]
    · rfl
  | _ => rfl

end JobTable

/-- A turn of a job makes no report on another one. -/
theorem Job.Turn.noted?_other {t : JobTable} {m : TableMove} {j k : Job} {id : String}
    (turn : Job.Turn t m j k) (hne : id ≠ j.id) : t.noted? id m = none := by
  cases turn with
  | reported => exact if_neg hne.symm
  | _ => rfl

namespace History

/-- The reports on the job that are noted in changes made one after the other to a table. -/
def notedFrom (t : JobTable) (id : String) : History → List Report
  | [] => []
  | m :: rest => (t.noted? id m).toList ++ notedFrom (t.play m) id rest

/-- The reports on the job that were noted, oldest first. -/
def noted (h : History) (id : String) : List Report := notedFrom .empty id h

theorem notedFrom_append (t : JobTable) (id : String) (h g : History) :
    notedFrom t id (h ++ g) = notedFrom t id h ++ notedFrom (h.foldl JobTable.play t) id g := by
  induction h generalizing t with
  | nil => rfl
  | cons m h ih => simp [notedFrom, ih]

@[simp] theorem noted_nil (id : String) : noted [] id = [] := rfl

theorem noted_append (h g : History) (id : String) :
    noted (h ++ g) id = h.noted id ++ notedFrom h.table id g :=
  notedFrom_append .empty id h g

theorem noted_snoc (h : History) (m : TableMove) (id : String) :
    noted (h ++ [m]) id = h.noted id ++ (h.table.noted? id m).toList := by
  simp [noted_append, notedFrom]

/-- A change that makes no report on the job adds none. -/
theorem noted_snoc_of_none {h : History} {m : TableMove} {id : String}
    (hnone : h.table.noted? id m = none) : noted (h ++ [m]) id = h.noted id := by
  rw [noted_snoc, hnone, Option.toList_none, List.append_nil]

/-- Nothing is noted of a job before it is asked for. -/
theorem noted_not_issued {h : History} (fresh : h.Fresh) {id : String} (hid : id ∉ h.issued) :
    h.noted id = [] := by
  induction h using List.reverseRecOn with
  | nil => rfl
  | append_singleton h m ih =>
    rw [issued_append, List.mem_append, not_or] at hid
    rw [noted_snoc_of_none, ih fresh.of_append hid.1]
    cases hm : (table h).noted? id m with
    | none => rfl
    | some r =>
      obtain ⟨-, j, hj, rfl, -⟩ := JobTable.noted?_eq_some hm
      exact absurd (issued_of_mem fresh.of_append hj) hid.1

end History

/-! ## What they add up to -/

/-- The value of a report, cut to the range of the progress of a job that has not completed. -/
def Report.inRange (r : Report) : Int := max 0 (min 99 r.value.toInt)

/-- What the reports add to the data of a job. -/
def addedBy (reports : List Report) (data : Json) : Json :=
  (reports.filterMap (·.extra)).foldl Json.merge data

theorem addedBy_append (reports more : List Report) (data : Json) :
    addedBy (reports ++ more) data = addedBy more (addedBy reports data) := by
  simp [addedBy]

/-- What the reports say under a key, oldest first. -/
def saidUnder (key : String) (reports : List Report) : List Json :=
  reports.filterMap (fun r => r.extra.bind (·.get? key))

@[simp] theorem saidUnder_append (key : String) (reports more : List Report) :
    saidUnder key (reports ++ more) = saidUnder key reports ++ saidUnder key more := by
  simp [saidUnder]

/-- Under each key the data have what was said of it last. -/
theorem get?_addedBy {key : String} {reports : List Report}
    (h : ∀ r ∈ reports, ∀ e, r.extra = some e → e.IsClearOn key) (data : Json) :
    (addedBy reports data).get? key = (saidUnder key reports).getLast?.or (data.get? key) := by
  induction reports using List.reverseRecOn with
  | nil => rfl
  | append_singleton reports r ih =>
    have ih := ih fun x hx => h x (List.mem_append_left _ hx)
    rw [addedBy_append, saidUnder_append, List.getLast?_append, Option.or_assoc, ← ih]
    cases hextra : r.extra with
    | none => simp [addedBy, saidUnder, hextra]
    | some e =>
      have hclear := h r (List.mem_append_right _ (.head _)) e hextra
      have hone : addedBy [r] (addedBy reports data) = (addedBy reports data).merge e := by
        simp [addedBy, hextra]
      rw [hone, Json.get?_merge hclear]
      congr 1
      cases hvalue : e.get? key <;> simp [saidUnder, hextra, hvalue]

/-- The progress is the largest of zero and the values of the reports, each cut to the range. -/
def IsLargestOf (reports : List Report) (progress : UInt8) : Prop :=
  IsGreatest {x : Int | x = 0 ∨ ∃ r ∈ reports, x = r.inRange} progress.toNat

/-- The order in which the values came does not matter. -/
theorem isLargestOf_perm {reports reports' : List Report} (h : reports'.Perm reports)
    {progress : UInt8} : IsLargestOf reports' progress ↔ IsLargestOf reports progress := by
  unfold IsLargestOf
  simp only [h.mem_iff]

theorem isLargestOf_nil : IsLargestOf [] 0 :=
  ⟨.inl rfl, by simp [upperBounds]⟩

theorem Job.toNat_clampedProgress (value : Int64) (extra : Option Json) :
    ((clampedProgress value).toNat : Int) = Report.inRange ⟨value, extra⟩ := by
  have h0 : (0 : Int64).toInt = 0 := rfl
  have h99 : (99 : Int64).toInt = 99 := rfl
  change _ = max 0 (min 99 value.toInt)
  unfold clampedProgress
  split
  · rename_i hneg
    rw [Int64.lt_iff_toInt_lt] at hneg
    have : (0 : UInt8).toNat = 0 := rfl
    omega
  · rename_i hneg
    rw [Int64.not_lt, Int64.le_iff_toInt_le] at hneg
    split
    · rename_i hbig
      rw [gt_iff_lt, Int64.lt_iff_toInt_lt] at hbig
      have : topProgress.toNat = 99 := rfl
      omega
    · rename_i hbig
      rw [gt_iff_lt, Int64.not_lt, Int64.le_iff_toInt_le] at hbig
      rw [UInt8.toNat_ofNat']
      omega

theorem toNat_max (a b : UInt8) : (max a b).toNat = max a.toNat b.toNat := by
  simp only [Max.max, UInt8.le_iff_toNat_le]
  split <;> rfl

/-- One more report raises the progress to its value, or leaves it. -/
theorem IsLargestOf.reported {reports : List Report} {j : Job} (h : IsLargestOf reports j.progress)
    (value : Int64) (extra : Option Json) :
    IsLargestOf (reports ++ [⟨value, extra⟩]) (j.reported value extra).progress := by
  have hvalue := Job.toNat_clampedProgress value extra
  have hprogress : (j.reported value extra).progress.toNat =
      max (Job.clampedProgress value).toNat j.progress.toNat := toNat_max _ _
  obtain ⟨hmem, hupper⟩ := h
  refine ⟨?_, ?_⟩
  · rcases Nat.le_total (Job.clampedProgress value).toNat j.progress.toNat with hle | hle
    · rw [hprogress, Nat.max_eq_right hle]
      rcases hmem with hzero | ⟨r, hr, heq⟩
      · exact .inl hzero
      · exact .inr ⟨r, List.mem_append_left _ hr, heq⟩
    · rw [hprogress, Nat.max_eq_left hle]
      exact .inr ⟨_, List.mem_append_right _ (.head _), hvalue⟩
  · rintro x hx
    have hold : x = 0 ∨ (∃ r ∈ reports, x = r.inRange) → x ≤ (j.progress.toNat : Int) :=
      fun hx => hupper hx
    rcases hx with rfl | ⟨r, hr, rfl⟩
    · omega
    · rcases List.mem_append.1 hr with hr | hr
      · have := hold (.inr ⟨r, hr, rfl⟩)
        omega
      · rw [List.mem_singleton.1 hr]
        omega

/-- The record of a job is what its noted reports add up to. -/
structure Job.AddsUp (h : History) (j : Job) : Prop where
  /-- Before work on a job starts no report on it is noted. -/
  unbegun : j.status = .pending → h.noted j.id = []
  progress : j.status = .processing → IsLargestOf (h.noted j.id) j.progress
  data : ∃ request, (j.id, request) ∈ h.requests ∧ j.data = addedBy (h.noted j.id) request.payload

namespace Job.AddsUp

variable {h : History} {m : TableMove} {j k : Job}

/-- A job that has the data it had, and no new report, adds up behind a change as before. -/
theorem of_same (l : j.AddsUp h) (hnone : h.table.noted? j.id m = none) (hid : k.id = j.id)
    (hdata : k.data = j.data)
    (hunbegun : k.status = .pending → j.status = .pending)
    (hprogress : k.status = .processing → IsLargestOf (h.noted j.id) k.progress) :
    k.AddsUp (h ++ [m]) := by
  have hnoted := History.noted_snoc_of_none hnone
  refine ⟨fun hs => ?_, fun hs => ?_, ?_⟩
  · rw [hid, hnoted]
    exact l.unbegun (hunbegun hs)
  · rw [hid, hnoted]
    exact hprogress hs
  · obtain ⟨request, hmem, hsum⟩ := l.data
    refine ⟨request, ?_, ?_⟩
    · rw [hid, History.requests_append]
      exact List.mem_append_left _ hmem
    · rw [hid, hnoted, hdata, hsum]

theorem kept (l : j.AddsUp h) (hnone : h.table.noted? j.id m = none) : j.AddsUp (h ++ [m]) :=
  l.of_same hnone rfl rfl (fun hs => hs) l.progress

theorem reported (l : j.AddsUp h) (hn : h.table.ids.Nodup) (mem : j ∈ h.table.jobs)
    (value : Int64) (extra : Option Json) (processing : j.status = .processing) :
    (j.reported value extra).AddsUp (h ++ [.report j.id value extra]) := by
  have hnoted : History.noted (h ++ [.report j.id value extra]) j.id =
      h.noted j.id ++ [⟨value, extra⟩] := by
    rw [History.noted_snoc, JobTable.noted?_of_stands hn ⟨j, mem, rfl, processing⟩]
    rfl
  have hid : (j.reported value extra).id = j.id := rfl
  refine ⟨fun hs => ?_, fun _ => ?_, ?_⟩
  · simp [Job.reported, processing] at hs
  · rw [hid, hnoted]
    exact (l.progress processing).reported value extra
  · obtain ⟨request, hmem, hsum⟩ := l.data
    refine ⟨request, ?_, ?_⟩
    · rw [hid, History.requests_append]
      exact List.mem_append_left _ hmem
    · rw [hid, hnoted, addedBy_append, ← hsum]
      cases extra <;> rfl

/-- A turn of a job keeps to its reports. -/
theorem turn (l : j.AddsUp h) (hn : h.table.ids.Nodup) (mem : j ∈ h.table.jobs)
    (turn : Job.Turn h.table m j k) : k.AddsUp (h ++ [m]) := by
  cases turn with
  | withdrawn => exact l.of_same rfl rfl rfl (fun hs => by cases hs) (fun hs => by cases hs)
  | reported processing => exact l.reported hn mem _ _ processing
  | @begun _ now next =>
    have hnone := l.unbegun (JobTable.next?_eq_some next).2.1
    exact l.of_same rfl rfl rfl (fun hs => by cases hs) fun _ => hnone ▸ isLargestOf_nil
  | @ended _ outcome now =>
    refine l.of_same rfl (JobTable.id_ended j now outcome) ?_
      (fun hs => absurd hs (JobTable.status_ended_ne j now outcome).2)
      (fun hs => absurd hs (JobTable.status_ended_ne j now outcome).1)
    unfold Job.ended
    cases outcome.failure? <;> rfl

end Job.AddsUp

namespace History

/-- The record of each job of the table is what its noted reports add up to. -/
theorem addsUp (h : History) (fresh : h.Fresh) : ∀ j ∈ h.table.jobs, j.AddsUp h := by
  induction h using List.reverseRecOn with
  | nil => simp [JobTable.empty]
  | append_singleton h m ih =>
    have ih := ih fresh.of_append
    have hn := ids_nodup h fresh.of_append
    have hp := JobTable.played hn m
    rw [table_snoc]
    generalize (table h).play m = t at hp
    cases hp with
    | @pushed id request now =>
      intro j hj
      simp only [JobTable.push, List.mem_append, List.mem_singleton] at hj
      rcases hj with hj | rfl
      · exact (ih j hj).kept rfl
      · have hnoted : noted (h ++ [.enqueue id request now]) id = [] := by
          rw [noted_snoc_of_none rfl]
          exact noted_not_issued fresh.of_append (not_issued fresh)
        refine ⟨fun _ => hnoted, (fun hs => by cases hs), request, ?_, ?_⟩
        · rw [requests_append]
          exact List.mem_append_right _ (.head _)
        · change request.payload = addedBy (noted _ id) request.payload
          rw [hnoted]
          rfl
    | @turned _ j k mem turn =>
      intro i hi
      rcases (JobTable.mem_put hn mem turn.same.1).mp hi with rfl | ⟨hi, hne⟩
      · exact (ih j mem).turn hn mem turn
      · exact (ih i hi).kept (turn.noted?_other fun hid => hne (JobTable.eq_of_id hn hi mem hid))
    | evicted =>
      intro j hj
      exact (ih j (List.mem_filter.mp hj).1).kept rfl
    | refused refuses =>
      intro j hj
      exact (ih j hj).kept (JobTable.noted?_of_refuses refuses j.id)

end History

end CodeSurvey
