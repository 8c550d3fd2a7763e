-- One job of a repository at a time, and each in its turn. The table keeps no
-- order but that of its rows, and removals shift those; still a job is started
-- only when every job that was asked for before it for the same repository has
-- ended or is gone, and of the jobs that wait the first one is taken.
import CodeSurvey.Proofs.Job.Lifecycle

namespace CodeSurvey

/-! ## Who is next -/

/-- The job waits, and its repository has no work going on. -/
structure JobTable.Waits (t : JobTable) (j : Job) : Prop where
  mem : j ∈ t.jobs
  pending : j.status = .pending
  free : ∀ k ∈ t.jobs, k.repository = j.repository → k.status ≠ .processing

theorem JobTable.isBusy_eq_false {t : JobTable} {repository : String} :
    t.isBusy repository = false ↔
      ∀ k ∈ t.jobs, k.repository = repository → k.status ≠ .processing := by
  unfold isBusy
  rw [List.any_eq_false]
  simp only [Bool.and_eq_true, decide_eq_true_eq, not_and]
  constructor
  · intro h k hk hr hs
    exact h k hk hs hr
  · intro h k hk hs hr
    exact h k hk hr hs

/-- The job that is next waits, and none of the jobs in front of it can be started. -/
theorem JobTable.next?_split {t : JobTable} {j : Job} (h : t.next? = some j) :
    t.Waits j ∧ ∃ before after, t.jobs = before ++ j :: after ∧ ∀ k ∈ before, ¬ t.Waits k := by
  obtain ⟨hmem, hpending, hfree⟩ := next?_eq_some h
  refine ⟨⟨hmem, hpending, isBusy_eq_false.mp hfree⟩, ?_⟩
  unfold next? at h
  rw [List.find?_eq_some_iff_append] at h
  obtain ⟨-, before, after, hsplit, hbefore⟩ := h
  refine ⟨before, after, hsplit, ?_⟩
  intro k hk hw
  have := hbefore k hk
  simp [hw.pending, isBusy_eq_false.mpr hw.free] at this

namespace History

/-- The first of two jobs was asked for before the second. -/
def Earlier (h : History) (a b : String) : Prop := [a, b].Sublist h.issued

/-- The job with the id was in the table, and one of the changes removed it. -/
def Removed (h : History) (id : String) : Prop :=
  ∃ before m after, h = before ++ m :: after ∧ id ∈ (table before).ids ∧
    id ∉ (table (before ++ [m])).ids

/-- Work on the job may be started now: the job waits with its repository free, it was asked for
before every other such job, and whatever was asked for before it for its repository has ended or
is gone. -/
structure InTurn (h : History) (j : Job) : Prop where
  waits : h.table.Waits j
  first : ∀ k, h.table.Waits k → k = j ∨ h.Earlier j.id k.id
  ended : ∀ id request, (id, request) ∈ h.requests → request.repository = j.repository →
    h.Earlier id j.id → (∃ k ∈ h.table.jobs, k.id = id ∧ k.status.isTerminal) ∨ h.Removed id

/-! ## The order of the jobs -/

/-- Of two jobs one was asked for first. -/
theorem earlier_asymm {h : History} (fresh : h.Fresh) {a b : String} (hab : h.Earlier a b) :
    ¬ h.Earlier b a := by
  unfold Fresh Earlier at *
  generalize h.issued = l at fresh hab
  induction l with
  | nil => cases hab
  | cons x l ih =>
    obtain ⟨hx, hl⟩ := List.nodup_cons.mp fresh
    intro hba
    cases hab with
    | cons _ hab =>
      cases hba with
      | cons _ hba => exact ih hl hab hba
      | cons_cons _ hba => exact hx (hab.subset (by simp))
    | cons_cons _ hab =>
      cases hba with
      | cons _ hba => exact hx (hba.subset (by simp))
      | cons_cons _ hba => exact hx (hab.subset (by simp))

/-- Jobs further up in the table were asked for before. -/
theorem earlier_of_split {h : History} (fresh : h.Fresh) {before after : List Job} {j k : Job}
    (hsplit : h.table.jobs = before ++ j :: after) (hk : k ∈ after) : h.Earlier j.id k.id := by
  refine List.Sublist.trans ?_ (ids_sublist h fresh)
  have hjk : [j, k].Sublist (j :: after) := (List.singleton_sublist.mpr hk).cons_cons j
  have : [j, k].Sublist h.table.jobs := by
    rw [hsplit]
    exact hjk.trans (List.sublist_append_right ..)
  exact this.map (·.id)

theorem Removed.append {h : History} {id : String} (removed : h.Removed id) (g : History) :
    Removed (h ++ g) id := by
  obtain ⟨before, m, after, rfl, hin, hout⟩ := removed
  exact ⟨before, m, after ++ g, by simp, hin, hout⟩

/-- A job that was asked for is in the table, or it was removed. -/
theorem stored_or_removed (h : History) (fresh : h.Fresh) :
    ∀ id request, (id, request) ∈ h.requests →
      (∃ j ∈ h.table.jobs, j.id = id ∧ j.repository = request.repository) ∨ h.Removed id := by
  induction h using List.reverseRecOn with
  | nil => simp
  | append_singleton h m ih =>
    have hn := ids_nodup h fresh.of_append
    intro id request hmem
    rw [requests_append, List.mem_append] at hmem
    rcases hmem with hmem | hmem
    · rcases ih fresh.of_append id request hmem with ⟨j, hj, rfl, hr⟩ | hgone
      · rcases evolves_or_removed fresh hj with ⟨k, hk, hjk⟩ | ⟨-, -, hout⟩
        · exact Or.inl ⟨k, hk, hjk.id, hjk.request.2.1.trans hr⟩
        · exact Or.inr ⟨h, m, [], rfl, List.mem_map_of_mem hj, hout⟩
      · exact Or.inr (hgone.append [m])
    · cases m with
      | enqueue i r now =>
        simp only [requests, List.filterMap_cons, TableMove.request?, List.filterMap_nil,
          List.mem_singleton, Prod.mk.injEq] at hmem
        obtain ⟨rfl, rfl⟩ := hmem
        refine Or.inl ⟨.ofRequest id now request, ?_, rfl, rfl⟩
        simp [JobTable.play, JobTable.push]
      | _ => simp [requests] at hmem

theorem inTurn_of_next {h : History} (fresh : h.Fresh) {j : Job} (next : h.table.next? = some j) :
    h.InTurn j := by
  obtain ⟨hw, before, after, hsplit, hbefore⟩ := JobTable.next?_split next
  -- a job that stands elsewhere in the table stands in front of this one or behind it
  have hplace : ∀ k ∈ h.table.jobs, k = j ∨ k ∈ before ∨ h.Earlier j.id k.id := by
    intro k hk
    rw [hsplit, List.mem_append, List.mem_cons] at hk
    rcases hk with hk | rfl | hk
    · exact Or.inr (Or.inl hk)
    · exact Or.inl rfl
    · exact Or.inr (Or.inr (earlier_of_split fresh hsplit hk))
  refine ⟨hw, ?_, ?_⟩
  · intro k hk
    rcases hplace k hk.mem with rfl | hfront | hbehind
    · exact Or.inl rfl
    · exact absurd hk (hbefore k hfront)
    · exact Or.inr hbehind
  · intro id request hasked hr hearlier
    rcases stored_or_removed h fresh id request hasked with ⟨k, hk, rfl, hkr⟩ | hgone
    · have hrepo : k.repository = j.repository := hkr.trans hr
      rcases hplace k hk with rfl | hfront | hbehind
      · exact absurd hearlier (earlier_asymm fresh hearlier)
      · refine Or.inl ⟨k, hk, rfl, ?_⟩
        have hfree : ∀ i ∈ h.table.jobs, i.repository = k.repository → i.status ≠ .processing :=
          fun i hi hir => hw.free i hi (hir.trans hrepo)
        cases hs : k.status with
        | pending => exact absurd ⟨hk, hs, hfree⟩ (hbefore k hfront)
        | processing => exact absurd hs (hfree k hk rfl)
        | completed => rfl
        | failed => rfl
      · exact absurd hbehind (earlier_asymm fresh hearlier)
    · exact Or.inr hgone

/-! ## One at a time -/

/-- Two jobs of one repository are not worked on at once. -/
theorem processing_alone (h : History) (fresh : h.Fresh) :
    ∀ j ∈ h.table.jobs, ∀ k ∈ h.table.jobs, j.status = .processing → k.status = .processing →
      j.repository = k.repository → j = k := by
  induction h using List.reverseRecOn with
  | nil => simp [JobTable.empty]
  | append_singleton h m ih =>
    have ih := ih fresh.of_append
    have hn := ids_nodup h fresh.of_append
    have hp := JobTable.played hn m
    rw [table_snoc]
    generalize (table h).play m = t at hp
    cases hp with
    | @pushed id request now =>
      have hold : ∀ j ∈ ((table h).push (.ofRequest id now request)).jobs,
          j.status = .processing → j ∈ (table h).jobs := by
        intro j hj hs
        simp only [JobTable.push, List.mem_append, List.mem_singleton] at hj
        rcases hj with hj | rfl
        · exact hj
        · cases hs
      intro j hj k hk hjs hks hr
      exact ih j (hold j hj hjs) k (hold k hk hks) hjs hks hr
    | @turned _ i i' mem turn =>
      -- the altered job is worked on only where no other job of its repository is
      have halone : i'.status = .processing → ∀ k ∈ (table h).jobs, k ≠ i →
          k.status = .processing → k.repository ≠ i'.repository := by
        intro hs k hk hne hks hr
        rw [turn.same.2.2.1] at hr
        cases turn with
        | withdrawn => cases hs
        | reported processing => exact hne (ih k hk i mem hks processing hr)
        | begun next =>
          exact (JobTable.isBusy_eq_false.mp (JobTable.next?_eq_some next).2.2) k hk hr hks
        | @ended _ outcome now processing =>
          unfold Job.ended at hs
          split at hs <;> cases hs
      intro j hj k hk hjs hks hr
      rw [JobTable.mem_put hn mem turn.same.1] at hj hk
      rcases hj with hj | ⟨hj, hji⟩
      · subst hj
        rcases hk with hk | ⟨hk, hki⟩
        · exact hk.symm
        · exact absurd hr.symm (halone hjs k hk hki hks)
      · rcases hk with hk | ⟨hk, hki⟩
        · subst hk
          exact absurd hr (halone hks j hj hji hjs)
        · exact ih j hj k hk hjs hks hr
    | evicted =>
      intro j hj k hk
      exact ih j (List.mem_filter.mp hj).1 k (List.mem_filter.mp hk).1
    | refused => exact ih

theorem processing_le_one (h : History) (fresh : h.Fresh) (repository : String) :
    h.table.jobs.countP (fun j => j.repository = repository && j.status = .processing) ≤ 1 := by
  have hn : h.table.jobs.Nodup := List.Nodup.of_map _ (ids_nodup h fresh)
  rw [List.countP_eq_length_filter]
  generalize hf : h.table.jobs.filter
    (fun j => j.repository = repository && j.status = .processing) = l
  have hl : l.Nodup := hf ▸ hn.filter _
  have hall : ∀ j ∈ l, ∀ k ∈ l, j = k := by
    intro j hj k hk
    rw [← hf, List.mem_filter, Bool.and_eq_true, decide_eq_true_eq, decide_eq_true_eq] at hj hk
    exact processing_alone h fresh j hj.1 k hk.1 hj.2.2 hk.2.2 (hj.2.1.trans hk.2.1.symm)
  match l with
  | [] => simp
  | [_] => simp
  | j :: k :: rest =>
    have := hall j (by simp) k (by simp)
    simp [this] at hl

/-! ## Every start -/

/-- A job that comes to be worked on is started by a claim, and in turn. -/
theorem begun_inTurn {h : History} {m : TableMove} (fresh : Fresh (h ++ [m])) {k : Job}
    (hk : k ∈ (table (h ++ [m])).jobs) (hs : k.status = .processing) :
    (∃ j ∈ h.table.jobs, j.id = k.id ∧ j.status = .processing) ∨
      ∃ now j, m = .claim now ∧ h.InTurn j ∧ k = j.begun now := by
  have hn := ids_nodup h fresh.of_append
  have hp := JobTable.played hn m
  rw [table_snoc] at hk
  generalize (table h).play m = t at hp hk
  cases hp with
  | pushed =>
    simp only [JobTable.push, List.mem_append, List.mem_singleton] at hk
    rcases hk with hk | rfl
    · exact Or.inl ⟨k, hk, rfl, hs⟩
    · cases hs
  | @turned _ j i mem turn =>
    have hid := turn.same.1
    rcases (JobTable.mem_put hn mem hid).mp hk with rfl | ⟨hk, -⟩
    · cases turn with
      | withdrawn => cases hs
      | reported processing => exact Or.inl ⟨j, mem, rfl, processing⟩
      | begun next => exact Or.inr ⟨_, j, rfl, inTurn_of_next fresh.of_append next, rfl⟩
      | ended processing => exact Or.inl ⟨j, mem, hid.symm, processing⟩
    · exact Or.inl ⟨k, hk, rfl, hs⟩
  | evicted => exact Or.inl ⟨k, (List.mem_filter.mp hk).1, rfl, hs⟩
  | refused => exact Or.inl ⟨k, hk, rfl, hs⟩

/-- A job that has a start was started by a claim, and in turn. -/
theorem started_inTurn (h : History) (fresh : h.Fresh) :
    ∀ k ∈ h.table.jobs, k.startedAt.isSome →
      ∃ before now after j, h = before ++ .claim now :: after ∧ before.table.next? = some j ∧
        j.id = k.id ∧ InTurn before j := by
  induction h using List.reverseRecOn with
  | nil => simp [JobTable.empty]
  | append_singleton h m ih =>
    have hn := ids_nodup h fresh.of_append
    have hp := JobTable.played hn m
    -- a start that is in the history so far is in the longer one
    have hold : ∀ k ∈ (table h).jobs, k.startedAt.isSome →
        ∃ before now after j, h ++ [m] = before ++ .claim now :: after ∧
          (table before).next? = some j ∧ j.id = k.id ∧ InTurn before j := by
      intro k hk hs
      obtain ⟨before, now, after, j, heq, hnext, hid, hturn⟩ := ih fresh.of_append k hk hs
      exact ⟨before, now, after ++ [m], j, by simp [heq], hnext, hid, hturn⟩
    rw [table_snoc]
    generalize (table h).play m = t at hp
    intro k hk hs
    cases hp with
    | pushed =>
      simp only [JobTable.push, List.mem_append, List.mem_singleton] at hk
      rcases hk with hk | rfl
      · exact hold k hk hs
      · cases hs
    | @turned _ j i mem turn =>
      have hid := turn.same.1
      rcases (JobTable.mem_put hn mem hid).mp hk with rfl | ⟨hk, -⟩
      · rw [hid]
        cases turn with
        | withdrawn => exact hold j mem hs
        | reported => exact hold j mem hs
        | begun next =>
          exact ⟨h, _, [], j, rfl, next, rfl, inTurn_of_next fresh.of_append next⟩
        | @ended _ outcome now =>
          refine hold j mem ?_
          unfold Job.ended at hs
          split at hs <;> exact hs
      · exact hold k hk hs
    | evicted => exact hold k (List.mem_filter.mp hk).1 hs
    | refused => exact hold k hk hs

end History

/-! ## The law -/

/-- One job of a repository at a time, and in order. In every history of the table in which ids are
given once, at most one job of a repository is worked on; a change that starts the work on a job
is a claim, and the job is in turn; and so was every job that has a start, when it was claimed.
The table of every queue is the table of such a history. -/
theorem one_at_a_time_in_order {σ : Type} :
    (∀ h : History, h.Fresh →
      (∀ repository, h.table.jobs.countP
        (fun j => j.repository = repository && j.status = .processing) ≤ 1) ∧
      (∀ m, History.Fresh (h ++ [m]) → ∀ k ∈ (History.table (h ++ [m])).jobs,
        k.status = .processing →
          (∃ j ∈ h.table.jobs, j.id = k.id ∧ j.status = .processing) ∨
            ∃ now j, m = .claim now ∧ h.InTurn j ∧ k = j.begun now) ∧
      ∀ k ∈ h.table.jobs, k.startedAt.isSome →
        ∃ before now after j, h = before ++ .claim now :: after ∧
          (History.table before).next? = some j ∧ j.id = k.id ∧ History.InTurn before j) ∧
    ∀ (settings : QueueSettings) (shared : σ) (h : History) (q : Queue σ),
      Queue.Reached settings shared h q → h.Fresh ∧ q.table = h.table := by
  refine ⟨fun h fresh => ⟨?_, ?_, ?_⟩, ?_⟩
  · exact History.processing_le_one h fresh
  · intro m hm k hk hs
    exact History.begun_inTurn hm hk hs
  · exact History.started_inTurn h fresh
  · intro settings shared h q reached
    obtain ⟨htable, -, fresh⟩ := reached.table
    exact ⟨fresh, htable⟩

/-- Of two jobs of one repository the first is worked on, and the job of another repository beside
it, past the second. -/
def History.twoRepositories : History :=
  [.enqueue "a" ⟨"work", "r", .null⟩ ⟨0⟩, .enqueue "b" ⟨"work", "r", .null⟩ ⟨1⟩,
    .enqueue "c" ⟨"work", "s", .null⟩ ⟨2⟩, .claim ⟨3⟩, .claim ⟨4⟩, .claim ⟨5⟩]

/-- The law at work on two repositories. -/
theorem one_at_a_time_in_two_repositories :
    History.twoRepositories.Fresh ∧
      History.twoRepositories.table.jobs.map (·.status) = [.processing, .pending, .processing] ∧
      History.twoRepositories.table.jobs.countP
        (fun j => j.repository = "r" && j.status = .processing) ≤ 1 :=
  have fresh : History.twoRepositories.Fresh := by
    unfold History.Fresh
    decide
  ⟨fresh, by rfl, ((@one_at_a_time_in_order Unit).1 History.twoRepositories fresh).1 "r"⟩

end CodeSurvey
