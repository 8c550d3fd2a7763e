-- A job of analysis and the record of its repository end alike. What was written
-- last decides the record: the completion, or the failure with its message, so that
-- it does not matter what the record said before or what failed on the way. Until
-- the queue ends the job nothing else writes to the record, since no other job of
-- the repository is worked on.
import CodeSurvey.Analysis
import CodeSurvey.Proofs.Analysis.Determined
import CodeSurvey.Proofs.Job.Turn
import CodeSurvey.Proofs.Queue.Dispatch
import CodeSurvey.Proofs.Store.Standing

namespace CodeSurvey

/-! ## Work that leaves something -/

namespace Reporting

variable {σ α β γ : Type}

/-- Whatever comes of the work, what is read of the state stays. -/
def Leaves (read : σ → γ) (x : Reporting σ α) : Prop := ∀ s, x.Ends s fun _ t => read t = read s

variable {read : σ → γ}

theorem leaves_pure (a : α) : Leaves read (Pure.pure a : Reporting σ α) := fun _ => rfl

theorem leaves_fail (f : Failure) : Leaves read (fail f : Reporting σ α) := fun _ => rfl

theorem leaves_report (value : Int64) (extra : Option Json) : Leaves read (report value extra) :=
  fun _ => rfl

theorem leaves_run {c : Command σ α} (h : c.Leaves read) : Leaves read (run c) := h

theorem Leaves.bind {x : Reporting σ α} {f : α → Reporting σ β} (hx : x.Leaves read)
    (hf : ∀ a, (f a).Leaves read) : Leaves read (x >>= f) :=
  fun s => (hx s).bind (fun a t ht => (hf a t).trans ht) fun _ _ ht => ht

/-- What is true of the state that the work leaves, where it gives an answer. -/
def Answers (x : Reporting σ α) (q : σ → Prop) : Prop :=
  ∀ s, x.Ends s fun r t => ∀ a, r = .ok a → q t

/-- The last piece of work decides. -/
theorem Answers.bind {x : Reporting σ α} {f : α → Reporting σ β} {q : σ → Prop}
    (hf : ∀ a, (f a).Answers q) : Answers (x >>= f) q := by
  intro s
  have hx : x.Ends s fun _ _ => True := trivial
  refine hx.bind (fun a t _ => hf a t) ?_
  intro e t _ b hb
  cases hb

end Reporting

theorem Site.leaves_onStore {σ α γ : Type} {read : σ → γ} {c : Command σ α} (h : c.Leaves read) :
    (Site.onStore c).Leaves (fun s => read s.store) := fun s => h s.store

/-! ## The record of a repository in its analysis -/

/-- The standing of a repository whose analysis ended so. -/
def Outcome.standing (o : Outcome) : Standing :=
  match o.failure? with
  | none => ⟨.completed, none⟩
  | some f => ⟨.failed, some f.message⟩

namespace Analyzer

variable {σ : Type} [Storage σ] [RecordKeeping σ]

open RecordKeeping

section Others

variable (id : String)

theorem leaves_storeBatch (repository : String) (files : List FoundFile) :
    (storeBatch repository files : Command (Site σ) _).Leaves (standing ·.store id) := by
  intro s
  unfold storeBatch
  split
  · rfl
  · exact Site.leaves_onStore (insertFiles _ id) s

theorem leaves_storeBatches (repository : String) (all done stored : Nat)
    (batches : List (List FoundFile)) :
    (storeBatches repository all done stored batches : Reporting (Site σ) _).Leaves
      (standing ·.store id) := by
  induction batches generalizing done stored with
  | nil => exact Reporting.leaves_pure []
  | cons batch rest ih =>
    refine (Reporting.leaves_run (leaves_storeBatch id repository batch)).bind fun new => ?_
    refine (Reporting.leaves_report _ _).bind fun _ => ?_
    exact (ih _ _).bind fun more => Reporting.leaves_pure _

theorem leaves_storeFiles (a : Analyzer) (repository : String) (files : List FoundFile) :
    (a.storeFiles repository files : Reporting (Site σ) _).Leaves (standing ·.store id) := by
  unfold storeFiles
  split
  · exact (Reporting.leaves_report _ _).bind fun _ => Reporting.leaves_pure _
  · exact leaves_storeBatches id repository _ _ _ _

theorem leaves_storeFacts (registry : Registry) (f : StoredFile) (s : Site σ) :
    standing (storeFacts registry f s).2.store id = standing s.store id := by
  unfold storeFacts
  split
  · rfl
  · rename_i facts edges _
    have h := Site.leaves_onStore (replaceFacts f.id f.repository facts edges id) s
    split
    · rename_i t ht
      rw [ht] at h
      exact h
    · rename_i e t ht
      rw [ht] at h
      exact h

theorem leaves_storeAllFacts (registry : Registry) (files : List StoredFile) (s : Site σ) :
    standing (storeAllFacts registry files s).2.store id = standing s.store id := by
  induction files generalizing s with
  | nil => rfl
  | cons f rest ih => exact (ih _).trans (leaves_storeFacts id registry f s)

theorem leaves_factsBatches (a : Analyzer) (all done : Nat) (t : FactTotals)
    (failure : Option Failure) (batches : List (List StoredFile)) :
    (a.factsBatches all done t failure batches : Reporting (Site σ) _).Leaves
      (standing ·.store id) := by
  induction batches generalizing done t failure with
  | nil => exact Reporting.leaves_pure failure
  | cons batch rest ih =>
    have hbatch : (a.factsBatch batch : Command (Site σ) _).Leaves (standing ·.store id) :=
      fun s => leaves_storeAllFacts id a.registry _ s
    refine (Reporting.leaves_run hbatch).bind fun outcomes => ?_
    exact (Reporting.leaves_report _ _).bind fun _ => ih _ _ _

theorem leaves_storeFactsOf (a : Analyzer) (files : List StoredFile) :
    (a.storeFactsOf files : Reporting (Site σ) _).Leaves (standing ·.store id) := by
  unfold storeFactsOf
  dsimp only
  split
  · exact Reporting.leaves_report _ _
  · refine (leaves_factsBatches id a _ _ _ _ _).bind fun failure => ?_
    cases failure with
    | none => exact Reporting.leaves_pure ()
    | some f => exact Reporting.leaves_fail _

/-- An analysis leaves the records of all repositories but its own. -/
theorem leaves_survey (a : Analyzer) {repository : String} (payload : Json) (hne : id ≠ repository) :
    (a.survey repository payload : Reporting (Site σ) _).Leaves (standing ·.store id) := by
  have hupdate : ∀ u, (Reporting.run (σ := Site σ)
      (Site.onStore (Storage.updateRepository repository u))).Leaves (standing ·.store id) :=
    fun u => Reporting.leaves_run (Site.leaves_onStore (others repository u hne))
  unfold survey
  refine (hupdate _).bind fun _ => ?_
  refine (Reporting.leaves_run (Command.leaves_ask _)).bind fun source => ?_
  refine Reporting.Leaves.bind (fun _ => rfl) fun path => ?_
  refine (Reporting.leaves_report _ _).bind fun _ => ?_
  refine (Reporting.leaves_run (Command.leaves_ask _)).bind fun found => ?_
  refine (Reporting.leaves_report _ _).bind fun _ => ?_
  refine (Reporting.leaves_run (Site.leaves_onStore (clearFiles repository id))).bind fun _ => ?_
  refine (leaves_storeFiles id a repository _).bind fun stored => ?_
  exact (leaves_storeFactsOf id a stored).bind fun _ => hupdate _

end Others

/-- After an analysis that goes through, the record of the repository says so. -/
theorem answers_survey (a : Analyzer) (repository : String) (payload : Json) :
    (a.survey repository payload : Reporting (Site σ) _).Answers
      (standing ·.store repository = some ⟨.completed, none⟩) := by
  unfold survey
  iterate 9 refine Reporting.Answers.bind fun _ => ?_
  intro s r hr
  have hdone : Storage.updateRepository repository (completion _ _) s.store = (.ok r, _) :=
    Prod.ext hr rfl
  refine (updated hdone).trans (congrArg some ?_)
  exact Standing.apply_toStatus _ rfl rfl (by simp)

/-- Where the analysis of the job fails, the failure can be written to the record. -/
def WritesBack (a : Analyzer) (job : Job) (s : Site σ) : Prop :=
  ∀ f, (a.survey job.repository job.data s).result = .error f →
    ∃ r, (Storage.updateRepository job.repository (.failure f.message)
      (a.survey job.repository job.data s).state.store).1 = .ok r

/-- However the analysis of a job goes, the record says behind it how the job will end. -/
theorem handler_standing (a : Analyzer) {job : Job} {s : Site σ} (written : a.WritesBack job s) :
    standing (a.handler job s).2.store job.repository =
      some (a.handler job s).1.outcome.standing := by
  rcases a.handler_cases job s with ⟨r, hr, houtcome, hstate⟩ | ⟨f, hf, houtcome, hstate⟩
  · rw [houtcome, hstate]
    exact a.answers_survey job.repository job.data s r hr
  · rw [houtcome, hstate]
    obtain ⟨r, hr⟩ := written f hf
    refine (updated (Prod.ext hr rfl)).trans (congrArg some ?_)
    exact Standing.apply_failure _ _

theorem handler_others (a : Analyzer) (job : Job) (s : Site σ) {id : String}
    (hne : id ≠ job.repository) :
    standing (a.handler job s).2.store id = standing s.store id := by
  have hsurvey := leaves_survey id a job.data hne s
  rcases a.handler_cases job s with ⟨r, -, -, hstate⟩ | ⟨f, -, -, hstate⟩
  · rw [hstate]
    exact hsurvey
  · rw [hstate]
    exact (others job.repository _ hne _).trans hsurvey

end Analyzer

/-! ## The record until the job ends -/

namespace Queue

variable {σ : Type} [Storage σ] [RecordKeeping σ] {settings : QueueSettings} {shared : Site σ}

open RecordKeeping

/-- In the steps nobody writes to the record of the repository but analyses. -/
def LeftAlone (repository : String) (steps : List (Passage (Site σ))) : Prop :=
  ∀ p ∈ steps,
    (∃ job, ∃ a : Analyzer, p.lookup? = some job ∧ p.before.handler? job.type = some a.handler) ∨
      standing p.after.shared.store repository = standing p.before.shared.store repository

/-- The tasks of two jobs of one repository that are both worked on are for one job. -/
theorem same_of_working {h : History} (fresh : h.Fresh) {job job' : Job} (begun : JustBegun h job)
    (begun' : JustBegun h job') (working : h.table.Stands job.id .processing)
    (working' : h.table.Stands job'.id .processing) (hsame : job.repository = job'.repository) :
    job.id = job'.id := by
  have hrepository : ∀ {i : Job}, JustBegun h i → ∀ k ∈ h.table.jobs, k.id = i.id →
      k.repository = i.repository := by
    intro i hi k hk hid
    obtain ⟨request, hasked, -, hr, -⟩ := hi.asked
    obtain ⟨request', hasked', -, hr'⟩ := h.asked_of_mem fresh k hk
    rw [hid] at hasked'
    rw [hr, hr', History.request_unique fresh hasked hasked']
  obtain ⟨k, hk, hid, hs⟩ := working
  obtain ⟨k', hk', hid', hs'⟩ := working'
  have hkk : k.repository = k'.repository := by
    rw [hrepository begun k hk hid, hrepository begun' k' hk' hid', hsame]
  rw [← hid, ← hid', h.processing_alone fresh k hk k' hk' hs hs' hkk]

/-- As long as a job is worked on that was handed to its analysis, the record of its repository
says how it will end. -/
theorem standing_while_working {past later : List (Passage (Site σ))} {p : Passage (Site σ)}
    {q : Queue (Site σ)} {job : Job} {a : Analyzer}
    (h : Run settings shared (past ++ p :: later) q) (hlookup : p.lookup? = some job)
    (analysis : registered? past job.type = some a.handler)
    (written : a.WritesBack job p.before.shared) (alone : LeftAlone job.repository later)
    (working : q.table.Stands job.id .processing) :
    standing q.shared.store job.repository =
      some (a.handler job p.before.shared).1.outcome.standing := by
  induction later using List.reverseRecOn generalizing q with
  | nil =>
    obtain rfl := h.after_last
    obtain ⟨-, hshared, -⟩ : p.Hands job (some a.handler) := analysis ▸ (h.dispatched hlookup).hands
    rw [hshared]
    exact a.handler_standing written
  | append_singleton later p₁ ih =>
    rw [← List.cons_append, ← List.append_assoc] at h
    obtain ⟨hbefore, made⟩ := h.at_step
    obtain rfl := h.after_last
    obtain ⟨htable, -, fresh⟩ := hbefore.reached.table
    have hn := hbefore.reached.ids_nodup
    have hlooked : job ∈ lookedUp (past ++ p :: later) := mem_lookedUp hlookup
    -- the job was worked on before the step, for it was begun already
    have hworking : p₁.before.table.Stands job.id .processing := by
      rcases (step_processing made hn job.id).1 working with ⟨hold, -⟩ | ⟨now, j, -, hnext, hid⟩
      · exact hold
      · obtain ⟨hj, hs, -⟩ := JobTable.next?_eq_some hnext
        exact absurd ⟨j, htable ▸ hj, hid, hs⟩ (hbefore.away_of_looked hlooked).begun
    have hstanding := ih hbefore (fun p' hp' => alone p' (List.mem_append_left _ hp')) hworking
    rcases alone p₁ (by simp) with ⟨job₁, a₁, hlookup₁, hhandler₁⟩ | hkept
    · obtain ⟨hmine₁, hands₁⟩ := hands_of_lookup hbefore made hlookup₁
      rw [← hbefore.handler?, hhandler₁] at hands₁
      have hdispatched := h.dispatched hlookup₁
      have hne : job.repository ≠ job₁.repository := by
        intro hsame
        have begun : JustBegun (history (past ++ p :: later)) job := by
          rw [history_append]
          exact (hbefore.dispatched hlookup).begun.append _
        have hid := same_of_working fresh begun hdispatched.begun (htable ▸ hworking)
          (htable ▸ hdispatched.working) hsame
        have once := h.faithful.once
        rw [lookedUp_append, lookedUp_singleton, List.map_append, List.nodup_append] at once
        refine once.2.2 job.id (List.mem_map_of_mem hlooked) job₁.id ?_ hid
        simp [hlookup₁]
      rw [hands₁.2.1, a₁.handler_others job₁ _ hne, hstanding]
    · rw [hkept, hstanding]

end Queue

/-! ## The law -/

theorem Outcome.standing_of_shows {o : Outcome} {j : Job} (h : o.Shows j) :
    (j.status = .completed → o.standing = ⟨.completed, none⟩) ∧
      (j.status = .failed →
        ∃ text, j.error = some text ∧ o.standing = ⟨.failed, some text⟩) := by
  cases o with
  | succeeded =>
    obtain ⟨hs, -⟩ := h
    exact ⟨fun _ => rfl, fun hf => by simp [hs] at hf⟩
  | failed f =>
    obtain ⟨hs, he⟩ := h
    exact ⟨fun hc => by simp [hs] at hc, fun _ => ⟨_, he, rfl⟩⟩
  | panicked text =>
    cases text <;> obtain ⟨hs, he⟩ := h <;>
      exact ⟨fun hc => by simp [hs] at hc, fun _ => ⟨_, he, rfl⟩⟩

open Queue RecordKeeping in
/-- A job of analysis and the record of its repository end alike. Whatever became of payload, disk
and store in the analysis, and whatever was in the store, in the queue and in the run before: when
the job ends that a task handed to its analysis, and a failure of that could be written to the
record, which nobody else wrote to, the record is completed without a message where the job has
completed, and failed with the error of the job where the job has failed. Nothing is said of a job
that is called off before its turn or that finds no handler: no analysis had it, and none wrote to
its record. -/
theorem job_and_repository_end_alike {σ : Type} [Storage σ] [RecordKeeping σ]
    {settings : QueueSettings} {shared : Site σ} {past later : List (Passage (Site σ))}
    {p p' : Passage (Site σ)} {q : Queue (Site σ)} {job j : Job} {a : Analyzer}
    (h : Run settings shared (past ++ p :: (later ++ [p'])) q) (hlookup : p.lookup? = some job)
    (analysis : registered? past job.type = some a.handler)
    (written : a.WritesBack job p.before.shared) (alone : LeftAlone job.repository later)
    (working : p'.before.table.Stands job.id .processing) (hj : j ∈ q.table.jobs)
    (hid : j.id = job.id) (ended : j.status.isTerminal = true) :
    (j.status = .completed → standing q.shared.store job.repository = some ⟨.completed, none⟩) ∧
      (j.status = .failed → ∃ text, j.error = some text ∧
        standing q.shared.store job.repository = some ⟨.failed, some text⟩) := by
  have hdispatched := h.dispatched hlookup
  have hfated : Fated (past ++ p :: (later ++ [p'])) job (a.handler job p.before.shared).1.outcome :=
    ⟨past, p, later ++ [p'], rfl, hlookup, by rw [analysis]; rfl⟩
  have hfaithful := h.faithful
  have hn := h.reached.ids_nodup
  -- the job was worked on before the last step and is not behind it, so that step ended it
  have hstep : Run settings shared ((past ++ p :: later) ++ [p']) q := by simpa using h
  obtain ⟨hbefore, made⟩ := hstep.at_step
  obtain rfl := hstep.after_last
  have hnot : ¬ p'.after.table.Stands job.id .processing := by
    intro hstands
    have hs := JobTable.stands_unique hn hstands ⟨j, hj, hid, rfl⟩
    rw [← hs] at ended
    cases ended
  have hshared : p'.after.shared = p'.before.shared := by
    rw [step_processing made hbefore.reached.ids_nodup] at hnot
    by_contra hchanged
    refine hnot (.inl ⟨working, fun o now hm => hchanged (shared_of_finish made hm)⟩)
  have hstanding := standing_while_working hbefore hlookup analysis written alone working
  rw [hshared, hstanding]
  rcases hfaithful.ended j hj ended with hwithdrawn | ⟨job', o, hid', hfated', hshows⟩
  · exact absurd (hid ▸ hwithdrawn) hdispatched.kept
  · obtain ⟨-, rfl⟩ := fated_unique hfaithful.once hfated' hfated (hid'.trans hid)
    obtain ⟨hcompleted, hfailed⟩ := Outcome.standing_of_shows hshows
    refine ⟨fun hs => by rw [hcompleted hs], fun hs => ?_⟩
    obtain ⟨text, herror, hfail⟩ := hfailed hs
    exact ⟨text, herror, by rw [hfail]⟩

namespace Small

open Queue

/-- A store that has the repository as completed, and whose next call fails. -/
def lockedSite : Site (Faulty MemoryStore) where
  disk := disk
  store := {
    store := { MemoryStore.empty with
      repositories := [{ Repository.fresh "r" with status := .completed }] }
    faults := [some (.storage "locked")] }

/-- Up to where a task looks for the handler of the job. -/
def untilLookup : List (Move (Site (Faulty MemoryStore))) :=
  [.start, .register analysisType analyzer.handler,
    .enqueue "1" ⟨analysisType, "r", directoryPayload "/"⟩ ⟨0⟩,
    .drainOn ⟨1⟩, .drainOn ⟨1⟩, .drainOn ⟨1⟩, .drainOn ⟨1⟩]

theorem walks : (walk? untilLookup (fresh oneSlot lockedSite)).isSome = true := by decide +kernel

def began := (walk? untilLookup (fresh oneSlot lockedSite)).get walks

/-- The next step of the task. -/
def onward (q : Queue (Site (Faulty MemoryStore))) :
    Option (Queue.Stepped (Site (Faulty MemoryStore))) :=
  q.step (.advance 0 ⟨2⟩)

theorem looks : (onward began.2).isSome = true := by decide +kernel

def looked := (onward began.2).get looks

theorem breaksOff : (onward looked.2).isSome = true := by decide +kernel

def brokenOff := (onward looked.2).get breaksOff

theorem ends : (onward brokenOff.2).isSome = true := by decide +kernel

def ended := (onward brokenOff.2).get ends

end Small

open Queue RecordKeeping in
/-- The first call to the store fails, and so does the job; the record says why. -/
theorem job_and_repository_end_alike_when_locked :
    ∃ run q, Run oneSlot Small.lockedSite run q ∧
      (∃ j ∈ q.table.jobs, j.id = "1" ∧ j.error = some "Storage error: locked") ∧
      standing q.shared.store "r" = some ⟨.failed, some "Storage error: locked"⟩ := by
  let p : Passage _ := ⟨Small.began.2, .advance 0 ⟨2⟩, Small.looked.1, Small.looked.2⟩
  let p₁ : Passage _ := ⟨Small.looked.2, .advance 0 ⟨2⟩, Small.brokenOff.1, Small.brokenOff.2⟩
  let p' : Passage _ := ⟨Small.brokenOff.2, .advance 0 ⟨2⟩, Small.ended.1, Small.ended.2⟩
  have hbegan : Run oneSlot Small.lockedSite Small.began.1 Small.began.2 :=
    Run.fresh.walk (Option.some_get Small.walks).symm
  have hlooked : Run oneSlot Small.lockedSite (Small.began.1 ++ [p]) Small.looked.2 :=
    hbegan.step (Option.some_get Small.looks).symm
  have hbroken : Run oneSlot Small.lockedSite (Small.began.1 ++ [p] ++ [p₁]) Small.brokenOff.2 :=
    hlooked.step (Option.some_get Small.breaksOff).symm
  have h : Run oneSlot Small.lockedSite (Small.began.1 ++ p :: ([p₁] ++ [p'])) Small.ended.2 := by
    rw [List.append_cons, ← List.append_assoc]
    exact hbroken.step (Option.some_get Small.ends).symm
  have hlookup : p.lookup? = some (Small.job.begun ⟨1⟩) := rfl
  have written : Small.analyzer.WritesBack (Small.job.begun ⟨1⟩) p.before.shared :=
    fun _ _ => ⟨_, rfl⟩
  have alone : LeftAlone "r" [p₁] := by
    intro p₂ hp
    rw [List.mem_singleton.1 hp]
    exact .inr (by decide +kernel)
  obtain ⟨j, hj, hid, hs, herror⟩ : ∃ j ∈ Small.ended.2.table.jobs, j.id = "1" ∧
      j.status = .failed ∧ j.error = some "Storage error: locked" := ⟨_, .head _, rfl, rfl, rfl⟩
  obtain ⟨-, hfailed⟩ := job_and_repository_end_alike h hlookup rfl written alone
    ⟨_, .head _, rfl, rfl⟩ hj hid (by rw [hs]; rfl)
  obtain ⟨text, htext, hstanding⟩ := hfailed hs
  obtain rfl := Option.some.inj (herror.symm.trans htext)
  exact ⟨_, _, h, ⟨j, hj, hid, herror⟩, hstanding⟩

end CodeSurvey
