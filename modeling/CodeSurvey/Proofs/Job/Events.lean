-- The events of a job. Each change of the table that alters a job has one event,
-- but for a report that leaves the progress as it was and for the removal of old jobs.
-- In the order of the changes, the events of a job go through its life: it is asked
-- for, and either called off or begun, and once begun its progress rises until it ends.
import CodeSurvey.Proofs.Job.Begun
import CodeSurvey.Proofs.Job.Turn

namespace CodeSurvey

/-! ## Events of changes -/

namespace JobTable

/-- The event of a change, where the table does not refuse it. -/
def event? (t : JobTable) : TableMove → Option JobEvent
  | .enqueue id request _ => some (.enqueued id request.repository)
  | .cancel id now => (t.cancel now id).map (fun _ => .failed id Failure.cancelled.message)
  | .report id value extra => (t.report id value extra).bind (·.2)
  | .claim now => (t.claim now).map (fun c => .started c.1.id)
  | .finish id outcome now => (t.finish now id outcome).map (·.2)
  | .evict _ _ _ => none

theorem event?_of_refuses {t : JobTable} {m : TableMove} (h : t.Refuses m) : t.event? m = none := by
  cases m with
  | enqueue => exact h.elim
  | evict => rfl
  | _ => simp_all [Refuses, event?]

theorem findIn?_of_mem {t : JobTable} (hn : t.ids.Nodup) {j : Job} (hj : j ∈ t.jobs) :
    t.findIn? j.status j.id = some j := by
  cases h : t.findIn? j.status j.id with
  | none => exact absurd rfl (findIn?_eq_none hn h j hj rfl)
  | some k =>
    obtain ⟨hk, hid, -⟩ := findIn?_eq_some h
    rw [eq_of_id hn hk hj hid]

theorem report_event {t t' : JobTable} {id : String} {value : Int64} {extra : Option Json}
    {e : JobEvent} (h : t.report id value extra = some (t', some e)) : e.job = id := by
  obtain ⟨j, -, hj⟩ := Option.map_eq_some_iff.1 h
  have hevent := (Prod.mk.inj hj).2
  split at hevent
  · cases hevent
  · rw [← Option.some.inj hevent]
    rfl

theorem finish_event {t t' : JobTable} {id : String} {outcome : Outcome} {now : Instant}
    {e : JobEvent} (h : t.finish now id outcome = some (t', e)) : e.job = id := by
  obtain ⟨j, -, hj⟩ := Option.map_eq_some_iff.1 h
  rw [← (Prod.mk.inj hj).2, Job.endEvent]
  split <;> rfl

end JobTable

/-- A turn of a job has an event of that job, or none. -/
theorem Job.Turn.event {t : JobTable} {m : TableMove} {j k : Job} (hn : t.ids.Nodup)
    (mem : j ∈ t.jobs) (turn : Job.Turn t m j k) : ∀ e ∈ t.event? m, e.job = j.id := by
  have hfind := JobTable.findIn?_of_mem hn mem
  intro e he
  cases turn with
  | withdrawn pending =>
    rw [pending] at hfind
    simp [JobTable.event?, JobTable.cancel, hfind] at he
    exact he ▸ rfl
  | reported processing =>
    rw [processing] at hfind
    simp [JobTable.event?, JobTable.report, hfind] at he
    exact he.2 ▸ rfl
  | begun next =>
    simp [JobTable.event?, JobTable.claim, next] at he
    exact he ▸ rfl
  | @ended _ outcome _ processing =>
    rw [processing] at hfind
    simp [JobTable.event?, JobTable.finish, hfind, Job.endEvent] at he
    split at he <;> exact he ▸ rfl

namespace History

/-- The events of changes that are made one after the other to a table. -/
def eventsFrom (t : JobTable) : History → List JobEvent
  | [] => []
  | m :: rest => (t.event? m).toList ++ eventsFrom (t.play m) rest

/-- The events of all changes, in the order of the changes. -/
def events (h : History) : List JobEvent := eventsFrom .empty h

/-- The events of one job. -/
def eventsOf (h : History) (id : String) : List JobEvent := h.events.filter (·.job = id)

theorem eventsFrom_append (t : JobTable) (h g : History) :
    eventsFrom t (h ++ g) = eventsFrom t h ++ eventsFrom (h.foldl JobTable.play t) g := by
  induction h generalizing t with
  | nil => rfl
  | cons m h ih => simp [eventsFrom, ih]

@[simp] theorem events_snoc (h : History) (m : TableMove) :
    events (h ++ [m]) = h.events ++ (h.table.event? m).toList := by
  simp [events, eventsFrom_append, eventsFrom, table]

theorem eventsOf_snoc (h : History) (m : TableMove) (id : String) :
    eventsOf (h ++ [m]) id = h.eventsOf id ++ (h.table.event? m).toList.filter (·.job = id) := by
  simp [eventsOf]

/-- A change that has no event of a job leaves the events of the job. -/
theorem eventsOf_other {h : History} {m : TableMove} {id : String}
    (hother : ∀ e ∈ h.table.event? m, e.job ≠ id) : eventsOf (h ++ [m]) id = h.eventsOf id := by
  rw [eventsOf_snoc, List.filter_eq_nil_iff.2, List.append_nil]
  intro e he
  simpa using hother e (Option.mem_toList.1 he)

theorem eventsOf_own {h : History} {m : TableMove} {id : String} {e : JobEvent}
    (hevent : h.table.event? m = some e) (hown : e.job = id) :
    eventsOf (h ++ [m]) id = h.eventsOf id ++ [e] := by
  rw [eventsOf_snoc, hevent]
  simp [hown]

end History

/-! ## Lives -/

/-- Progress that rises from one value to the next, up to the largest. -/
structure Rising (values : List UInt8) : Prop where
  ascending : values.Pairwise (· < ·)
  range : ∀ v ∈ values, 1 ≤ v ∧ v ≤ Job.topProgress

theorem Rising.nil : Rising [] := ⟨.nil, by simp⟩

theorem Rising.snoc {values : List UInt8} {v top : UInt8} (h : Rising values)
    (hle : ∀ w ∈ values, w ≤ top) (hlt : top < v) (hv : v ≤ Job.topProgress) :
    Rising (values ++ [v]) := by
  have habove : ∀ w ∈ values, w < v := fun w hw => by
    have := hle w hw
    rw [UInt8.le_iff_toNat_le] at this
    rw [UInt8.lt_iff_toNat_lt] at hlt ⊢
    omega
  refine ⟨List.pairwise_append.2 ⟨h.ascending, List.pairwise_singleton _ _, ?_⟩, ?_⟩
  · intro w hw v' hv'
    rw [List.mem_singleton.1 hv']
    exact habove w hw
  · intro w hw
    rcases List.mem_append.1 hw with hw | hw
    · exact h.range w hw
    · rw [List.mem_singleton.1 hw]
      refine ⟨?_, hv⟩
      rw [UInt8.le_iff_toNat_le]
      rw [UInt8.lt_iff_toNat_lt] at hlt
      have : (1 : UInt8).toNat = 1 := rfl
      omega

/-- The events of a job that was begun and made progress. -/
def workEvents (id repository : String) (values : List UInt8) : List JobEvent :=
  .enqueued id repository :: .started id :: values.map (.progress id)

theorem progress_mem_workEvents {id repository : String} {values : List UInt8} {v : UInt8} :
    .progress id v ∈ workEvents id repository values ↔ v ∈ values := by
  simp [workEvents]

theorem workEvents_snoc (id repository : String) (values : List UInt8) (v : UInt8) :
    workEvents id repository (values ++ [v]) =
      workEvents id repository values ++ [.progress id v] := by
  simp [workEvents]

/-- The events of a job of a repository, in the order of its life, up to where it has a status. -/
inductive Life (id repository : String) : JobStatus → List JobEvent → Prop
  | waits : Life id repository .pending [.enqueued id repository]
  | calledOff : Life id repository .failed
      [.enqueued id repository, .failed id Failure.cancelled.message]
  | works {values : List UInt8} (rising : Rising values) :
      Life id repository .processing (workEvents id repository values)
  | completes {values : List UInt8} (rising : Rising values) :
      Life id repository .completed (workEvents id repository values ++ [.completed id])
  | fails {values : List UInt8} (rising : Rising values) (error : String) :
      Life id repository .failed (workEvents id repository values ++ [.failed id error])

/-- The events of a job tell how its record stands, and its progress is none above that of the
record. -/
structure Job.Told (h : History) (j : Job) : Prop where
  life : Life j.id j.repository j.status (h.eventsOf j.id)
  top : ∀ v, .progress j.id v ∈ h.eventsOf j.id → v ≤ j.progress

namespace Job.Told

variable {h : History} {m : TableMove} {j k : Job}

theorem kept (l : j.Told h) (hother : ∀ e ∈ h.table.event? m, e.job ≠ j.id) :
    j.Told (h ++ [m]) := by
  obtain ⟨life, top⟩ := l
  rw [← History.eventsOf_other hother] at life top
  exact ⟨life, top⟩

theorem of_events {events : List JobEvent} (hevents : h.eventsOf j.id = events)
    (life : Life j.id j.repository j.status events)
    (top : ∀ v, .progress j.id v ∈ events → v ≤ j.progress) : j.Told h := by
  subst hevents
  exact ⟨life, top⟩

theorem withdrawn (l : j.Told h) (hn : h.table.ids.Nodup) (mem : j ∈ h.table.jobs) (now : Instant)
    (pending : j.status = .pending) : (j.withdrawn now).Told (h ++ [.cancel j.id now]) := by
  have hfind := JobTable.findIn?_of_mem hn mem
  obtain ⟨life, -⟩ := l
  rw [pending] at life hfind
  have hevent : h.table.event? (.cancel j.id now) =
      some (.failed j.id Failure.cancelled.message) := by
    simp [JobTable.event?, JobTable.cancel, hfind]
  have hevents : _ = History.eventsOf h j.id ++ _ := History.eventsOf_own hevent rfl
  generalize History.eventsOf h j.id = events at life hevents
  cases life with
  | waits => exact of_events hevents .calledOff (by simp)

theorem begun (l : j.Told h) (now : Instant) (next : h.table.next? = some j) :
    (j.begun now).Told (h ++ [.claim now]) := by
  obtain ⟨-, pending, -⟩ := JobTable.next?_eq_some next
  obtain ⟨life, -⟩ := l
  rw [pending] at life
  have hevent : h.table.event? (.claim now) = some (.started j.id) := by
    simp [JobTable.event?, JobTable.claim, next, Job.begun]
  have hevents : _ = History.eventsOf h j.id ++ _ := History.eventsOf_own hevent rfl
  generalize History.eventsOf h j.id = events at life hevents
  cases life with
  | waits => exact of_events hevents (.works .nil) (by simp)

theorem reported (l : j.Told h) (lawful : j.Lawful h) (hn : h.table.ids.Nodup)
    (mem : j ∈ h.table.jobs) (value : Int64) (extra : Option Json)
    (processing : j.status = .processing) :
    (j.reported value extra).Told (h ++ [.report j.id value extra]) := by
  have hfind := JobTable.findIn?_of_mem hn mem
  obtain ⟨life, top⟩ := l
  have hle := j.progress_le_reported value extra
  have htop : (j.reported value extra).progress ≤ Job.topProgress :=
    Job.reported_progress_le value extra (lawful.processing processing).2.2.2
  rw [processing] at life hfind
  have hstatus : (j.reported value extra).status = .processing := processing
  by_cases hsame : (j.reported value extra).progress = j.progress
  · have hevent : h.table.event? (.report j.id value extra) = none := by
      simp [JobTable.event?, JobTable.report, hfind, hsame]
    have hevents : History.eventsOf (h ++ [.report j.id value extra]) j.id = h.eventsOf j.id :=
      History.eventsOf_other (by simp [hevent])
    refine of_events hevents ?_ fun v hv => hsame ▸ top v hv
    rw [hstatus]
    exact life
  · have hevent : h.table.event? (.report j.id value extra) =
        some (.progress j.id (j.reported value extra).progress) := by
      simp [JobTable.event?, JobTable.report, hfind, hsame]
    have hevents : _ = History.eventsOf h j.id ++ _ := History.eventsOf_own hevent rfl
    generalize History.eventsOf h j.id = events at life top hevents
    cases life with
    | @works values rising =>
      have hlt : j.progress < (j.reported value extra).progress :=
        UInt8.lt_of_le_of_ne hle (Ne.symm hsame)
      have hall : ∀ w ∈ values, w ≤ j.progress := fun w hw =>
        top w (progress_mem_workEvents.2 hw)
      rw [← workEvents_snoc] at hevents
      refine of_events hevents ?_ fun v hv => ?_
      · rw [hstatus]
        exact .works (rising.snoc hall hlt htop)
      · rcases List.mem_append.1 (progress_mem_workEvents.1 hv) with hv | hv
        · exact UInt8.le_trans (hall v hv) hle
        · rw [List.mem_singleton.1 hv]
          exact UInt8.le_refl _

theorem ended (l : j.Told h) (lawful : j.Lawful h) (hn : h.table.ids.Nodup)
    (mem : j ∈ h.table.jobs) (outcome : Outcome) (now : Instant)
    (processing : j.status = .processing) :
    (j.ended now outcome).Told (h ++ [.finish j.id outcome now]) := by
  have hfind := JobTable.findIn?_of_mem hn mem
  obtain ⟨life, top⟩ := l
  have htop := (lawful.processing processing).2.2.2
  rw [processing] at life hfind
  have hevent : h.table.event? (.finish j.id outcome now) = some (Job.endEvent j.id outcome) := by
    simp [JobTable.event?, JobTable.finish, hfind]
  unfold Job.endEvent at hevent
  unfold Job.ended
  cases hfailure : outcome.failure? with
  | none =>
    rw [hfailure] at hevent
    have hevents : _ = History.eventsOf h j.id ++ _ := History.eventsOf_own hevent rfl
    generalize History.eventsOf h j.id = events at life top hevents
    cases life with
    | works rising =>
      refine of_events hevents (.completes rising) fun v hv => ?_
      have hle := UInt8.le_trans (top v (by simpa using hv)) htop
      have hfull : (99 : UInt8) ≤ 100 := by decide
      exact UInt8.le_trans hle hfull
  | some f =>
    rw [hfailure] at hevent
    have hevents : _ = History.eventsOf h j.id ++ _ := History.eventsOf_own hevent rfl
    generalize History.eventsOf h j.id = events at life top hevents
    cases life with
    | works rising =>
      refine of_events hevents (.fails rising f.message) fun v hv => ?_
      exact top v (by simpa using hv)

/-- A turn of a job is told behind all that was told of it. -/
theorem turn (l : j.Told h) (lawful : j.Lawful h) (hn : h.table.ids.Nodup) (mem : j ∈ h.table.jobs)
    (turn : Job.Turn h.table m j k) : k.Told (h ++ [m]) := by
  cases turn with
  | withdrawn pending => exact l.withdrawn hn mem _ pending
  | reported processing => exact l.reported lawful hn mem _ _ processing
  | begun next => exact l.begun _ next
  | ended processing => exact l.ended lawful hn mem _ _ processing

end Job.Told

namespace History

/-- What is told is told of a job of the table, or of the one that is asked for. -/
theorem event_about {h : History} {m : TableMove} (fresh : Fresh (h ++ [m])) {e : JobEvent}
    (he : h.table.event? m = some e) :
    e.job ∈ h.table.ids ∨ ∃ request now, m = .enqueue e.job request now := by
  have hn := ids_nodup h fresh.of_append
  have hp := JobTable.played hn m
  generalize (table h).play m = t at hp
  cases hp with
  | pushed =>
    obtain rfl := Option.some.inj he
    exact .inr ⟨_, _, rfl⟩
  | turned mem turn =>
    rw [turn.event hn mem e he]
    exact .inl (List.mem_map_of_mem mem)
  | evicted => cases he
  | refused refuses =>
    rw [JobTable.event?_of_refuses refuses] at he
    cases he

/-- Nothing is told of a job before it is asked for. -/
theorem eventsOf_not_issued {h : History} (fresh : h.Fresh) {id : String} (hid : id ∉ h.issued) :
    h.eventsOf id = [] := by
  induction h using List.reverseRecOn with
  | nil => rfl
  | append_singleton h m ih =>
    rw [issued_append, List.mem_append, not_or] at hid
    rw [eventsOf_other, ih fresh.of_append hid.1]
    rintro e he rfl
    rcases event_about fresh he with hmem | ⟨request, now, rfl⟩
    · exact hid.1 ((ids_sublist h fresh.of_append).subset hmem)
    · simp at hid

/-- Nothing is told of a job that was removed. -/
theorem eventsOf_removed {h g : History} (fresh : Fresh (h ++ g)) {id : String}
    (hid : id ∈ h.issued) (hgone : id ∉ h.table.ids) : eventsOf (h ++ g) id = h.eventsOf id := by
  induction g using List.reverseRecOn with
  | nil => rw [List.append_nil]
  | append_singleton g m ih =>
    rw [← List.append_assoc] at fresh ⊢
    rw [eventsOf_other, ih fresh.of_append]
    rintro e he rfl
    rcases event_about fresh he with hmem | ⟨request, now, rfl⟩
    · exact removed_stays fresh.of_append hid hgone hmem
    · refine not_issued fresh ?_
      rw [issued_append]
      exact List.mem_append_left _ hid

/-- The events of each job of the table tell how it stands. -/
theorem told (h : History) (fresh : h.Fresh) : ∀ j ∈ h.table.jobs, j.Told h := by
  induction h using List.reverseRecOn with
  | nil => simp [JobTable.empty]
  | append_singleton h m ih =>
    have ih := ih fresh.of_append
    have hn := ids_nodup h fresh.of_append
    have hp := JobTable.played hn m
    rw [table_snoc]
    generalize (table h).play m = t at hp
    cases hp with
    | @pushed id request now =>
      have hevent : (table h).event? (.enqueue id request now) =
          some (.enqueued id request.repository) := rfl
      have hnew := not_issued fresh
      intro j hj
      simp only [JobTable.push, List.mem_append, List.mem_singleton] at hj
      rcases hj with hj | rfl
      · refine (ih j hj).kept fun e he => ?_
        obtain rfl := Option.some.inj (hevent.symm.trans he)
        rintro rfl
        exact hnew (issued_of_mem fresh.of_append hj)
      · have hevents : _ = eventsOf h id ++ _ := eventsOf_own hevent rfl
        rw [eventsOf_not_issued fresh.of_append hnew] at hevents
        exact .of_events hevents .waits (by simp)
    | @turned _ j k mem turn =>
      intro i hi
      rcases (JobTable.mem_put hn mem turn.same.1).mp hi with rfl | ⟨hi, hne⟩
      · exact (ih j mem).turn (lawful h fresh.of_append j mem) hn mem turn
      · refine (ih i hi).kept fun e he hown => hne ?_
        exact JobTable.eq_of_id hn hi mem (hown.symm.trans (turn.event hn mem e he))
    | evicted =>
      intro j hj
      exact (ih j (List.mem_filter.mp hj).1).kept (by simp [JobTable.event?])
    | refused refuses =>
      intro j hj
      exact (ih j hj).kept (by simp [JobTable.event?_of_refuses refuses])

/-- The events of a job that was asked for go through its life, up to the status that it has in the
table, or had when it was removed. -/
theorem life_of_requested {h : History} (fresh : h.Fresh) {id : String} {request : JobRequest}
    (hmem : (id, request) ∈ h.requests) :
    ∃ status, Life id request.repository status (h.eventsOf id) ∧
      (h.table.Stands id status ∨ h.Removed id ∧ status.isTerminal = true) := by
  rcases stored_or_removed h fresh id request hmem with ⟨j, hj, rfl, hrepository⟩ | hremoved
  · exact ⟨j.status, hrepository ▸ (told h fresh j hj).life, .inl ⟨j, hj, rfl, rfl⟩⟩
  · have hgone := hremoved
    obtain ⟨before, m, after, rfl, hin, hout⟩ := hremoved
    rw [List.append_cons] at fresh hmem ⊢
    have freshStep : Fresh (before ++ [m]) := fresh.of_append
    obtain ⟨j, hj, rfl⟩ := List.mem_map.1 hin
    obtain ⟨request', hasked, -, hrepository⟩ := asked_of_mem before freshStep.of_append j hj
    have hsame : request' = request := by
      refine request_unique fresh ?_ hmem
      simp [hasked]
    rcases evolves_or_removed freshStep hj with ⟨k, hk, hjk⟩ | ⟨⟨keep, now, ids, rfl⟩, hended, -⟩
    · exact absurd (hjk.id ▸ List.mem_map_of_mem hk) hout
    · have hissued : j.id ∈ issued (before ++ [.evict keep now ids]) := by
        simp [issued_of_mem freshStep.of_append hj]
      have hevents : eventsOf ((before ++ [.evict keep now ids]) ++ after) j.id =
          eventsOf before j.id := by
        rw [eventsOf_removed fresh hissued hout, eventsOf_other (by simp [JobTable.event?])]
      refine ⟨j.status, ?_, .inr ⟨by simpa using hgone, hended⟩⟩
      rw [hevents, ← hsame, ← hrepository]
      exact (told before freshStep.of_append j hj).life

end History

end CodeSurvey
