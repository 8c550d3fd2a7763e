-- An analysis that fails early keeps what an analysis before it stored. What was stored
-- for a repository gives way only once the new files are discovered; until then an
-- analysis writes to the record of its repository, and how that stands is all it writes.
import CodeSurvey.Proofs.Analysis.Determined
import CodeSurvey.Proofs.Store.Updating

namespace CodeSurvey

namespace Analyzer

variable {σ : Type} [Storage σ]

/-- The analysis of the job cannot get to its files: the payload names no source, the files
cannot be brought to a directory, or they cannot be discovered there. -/
inductive FailsEarly (a : Analyzer) (job : Job) (disk : Disk) (f : Failure) : Prop
  | payload : sourceOf job.data = .error f → FailsEarly a job disk f
  | materializing {source : RepositorySource} {left : Disk} : sourceOf job.data = .ok source →
      a.materialize job.repository source disk = (.error f, left) → FailsEarly a job disk f
  | discovering {source : RepositorySource} {path : String} {left : Disk} :
      sourceOf job.data = .ok source →
      a.materialize job.repository source disk = (.ok path, left) →
      discover a.discovery path left = .error f → FailsEarly a job disk f

/-- An analysis whose first update is refused ends there. -/
theorem survey_of_refused (a : Analyzer) {repository : String} (payload : Json) {s : Site σ}
    {e : Failure}
    (h : Storage.updateRepository repository (.toStatus .processing) s.store = (.error e, s.store)) :
    (a.survey repository payload s).result = .error e ∧
      (a.survey repository payload s).state = s := by
  simp only [survey, bind, Reporting.andThen, Reporting.run, Site.onStore, h]
  exact ⟨trivial, trivial⟩

/-- An analysis that fails early leaves the store as its first update does. -/
theorem survey_of_failsEarly {a : Analyzer} {job : Job} {s : Site σ} {f : Failure}
    (early : a.FailsEarly job s.disk f) {r : Repository} {store : σ}
    (h : Storage.updateRepository job.repository (.toStatus .processing) s.store =
      (.ok r, store)) :
    (a.survey job.repository job.data s).result = .error f ∧
      (a.survey job.repository job.data s).state.store = store := by
  cases early with
  | payload hsource =>
    simp only [survey, bind, Reporting.andThen, Reporting.run, Site.onStore, h, Command.ask,
      hsource]
    exact ⟨trivial, trivial⟩
  | materializing hsource hpath =>
    simp only [survey, bind, Reporting.andThen, Reporting.run, Site.onStore, h, Command.ask,
      hsource, Site.onDisk, hpath]
    exact ⟨trivial, trivial⟩
  | discovering hsource hpath hfound =>
    simp only [survey, bind, Reporting.andThen, Reporting.run, Site.onStore, h, Command.ask,
      hsource, Site.onDisk, hpath, Reporting.report, hfound]
    exact ⟨trivial, trivial⟩

/-- The failure is written to the record behind the analysis. -/
theorem handler_of_failed {a : Analyzer} {job : Job} {s : Site σ} {f : Failure}
    (h : (a.survey job.repository job.data s).result = .error f) :
    (a.handler job s).1.outcome = .failed f ∧
      (a.handler job s).2.store = (Storage.updateRepository job.repository (.failure f.message)
        (a.survey job.repository job.data s).state.store).2 := by
  rcases a.handler_cases job s with ⟨r, hr, -⟩ | ⟨e, he, houtcome, hstate⟩
  · rw [h] at hr
    cases hr
  · obtain rfl := Except.error.inj (h.symm.trans he)
    exact ⟨houtcome, congrArg (·.store) hstate⟩

theorem fits_toStatus (status : RepositoryStatus) : (RepositoryUpdate.toStatus status).Fits :=
  ⟨nofun, nofun, nofun⟩

theorem fits_failure (message : String) : (RepositoryUpdate.failure message).Fits :=
  ⟨nofun, nofun, nofun⟩

/-- A failure written over the start of an analysis sets the status and the message of the record
from before, which is made where there was none. -/
theorem updated_failure (id : String) (old : Option Repository) (message : String) :
    Repository.updated id (some (.updated id old (.toStatus .processing))) (.failure message) =
      { old.getD (Repository.fresh id) with
        status := .failed
        errorMessage := some message } := rfl

end Analyzer

/-- An analysis that fails early keeps the analysis before it. Whatever the store holds, and
wherever the analysis breaks off before files are discovered, files, facts, edges and the records
of other repositories are as they were. Of its own record only status and message are set, and
where that cannot be read, the store stays as it is. -/
theorem early_failure_keeps_analysis {σ : Type} [Storage σ] [UpdatesAlone σ] {a : Analyzer}
    {job : Job} {s : Site σ} {f : Failure} (early : a.FailsEarly job s.disk f) :
    ∃ e, (a.handler job s).1.outcome = .failed e ∧
      SameElsewhere job.repository s.store (a.handler job s).2.store ∧
      ((∃ old, (Storage.repository job.repository s.store).1 = .ok old ∧ e = f ∧
          (Storage.repository job.repository (a.handler job s).2.store).1 =
            .ok (some { old.getD (Repository.fresh job.repository) with
              status := .failed
              errorMessage := some f.message })) ∨
        ∃ unreadable, (Storage.repository job.repository s.store).1 = .error unreadable ∧
          (a.handler job s).2.store = s.store) := by
  cases hold : (Storage.repository job.repository s.store).1 with
  | ok old =>
    have hbegun := UpdatesAlone.done (Analyzer.fits_toStatus .processing) hold
    obtain ⟨hresult, hstore⟩ := Analyzer.survey_of_failsEarly early (Prod.ext hbegun.1 rfl)
    obtain ⟨houtcome, hafter⟩ := Analyzer.handler_of_failed hresult
    rw [hstore] at hafter
    have hended := UpdatesAlone.done (Analyzer.fits_failure f.message) hbegun.2
    refine ⟨f, houtcome, ?_, .inl ⟨old, rfl, rfl, ?_⟩⟩
    · rw [hafter]
      exact (UpdatesAlone.elsewhere _ _ _).trans (UpdatesAlone.elsewhere _ _ _)
    · rw [hafter, hended.2, Analyzer.updated_failure]
  | error unreadable =>
    obtain ⟨e, hrefused⟩ := UpdatesAlone.refused (.toStatus .processing) hold
    obtain ⟨hresult, hstate⟩ := a.survey_of_refused job.data hrefused
    obtain ⟨houtcome, hafter⟩ := Analyzer.handler_of_failed hresult
    obtain ⟨e', hrefused'⟩ := UpdatesAlone.refused (.failure e.message) hold
    have hsame : (a.handler job s).2.store = s.store := by rw [hafter, hstate, hrefused']
    refine ⟨e, houtcome, ?_, .inr ⟨unreadable, rfl, hsame⟩⟩
    rw [hsame]
    exact .refl _ _

namespace Small

/-- A job whose payload names no source. -/
def sourceless : Job := .ofRequest "1" ⟨0⟩ ⟨analysisType, "r", .null⟩

end Small

/-- A job without a source leaves the fact of a stored file, in memory as in the database. -/
theorem early_failure_keeps_analysis_without_source :
    let memory := Storage.after MemoryStore.empty describedRun
    let database := Storage.after Relational.Database.fresh describedRun
    (Storage.facts "r" (Small.analyzer.handler Small.sourceless ⟨Small.disk, memory⟩).2.store).1 =
        .ok [⟨2, 1, "r", .bare "f" .function 1 1⟩] ∧
      (Storage.facts "r" (Small.analyzer.handler Small.sourceless ⟨Small.disk, database⟩).2.store).1 =
        .ok [⟨1, 1, "r", .bare "f" .function 1 1⟩] := by
  have early : Small.analyzer.FailsEarly Small.sourceless Small.disk _ := .payload rfl
  constructor
  · obtain ⟨e, -, helsewhere, -⟩ := early_failure_keeps_analysis (σ := MemoryStore)
      (s := ⟨Small.disk, Storage.after .empty describedRun⟩) early
    rw [helsewhere.facts]
    rfl
  · obtain ⟨e, -, helsewhere, -⟩ := early_failure_keeps_analysis (σ := Relational.Database)
      (s := ⟨Small.disk, Storage.after .fresh describedRun⟩) early
    rw [helsewhere.facts]
    rfl

end CodeSurvey
