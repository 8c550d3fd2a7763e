-- What a request makes of what a store holds, whatever it names. Stores differ only in
-- the ids that they give, and in what goes with a repository where a fact or an edge
-- names another repository than its file does.
import CodeSurvey.Proofs.Store.Integrity

namespace CodeSurvey

/-- The request only asks for something. -/
def StoreRequest.Asks : StoreRequest → Prop
  | .files _ | .factsOfFile _ | .facts _ | .edges _ | .repository _ => True
  | _ => False

namespace Contents

/-- What becomes of contents by a request that is answered. -/
inductive Becomes (c : Contents) : StoreRequest → Contents → Prop
  | same {r : StoreRequest} : r.Asks → c.Becomes r c
  /-- What is kept of a file has its repository and its path. -/
  | insertFiles {new : List NewFile} {kept : List StoredFile} : c.Admits new →
      kept.map (·.key) = new.map (·.key) → (c.addFiles kept).Distinct →
      c.Becomes (.insertFiles new) (c.addFiles kept)
  | clearFiles (repository : String) : c.Becomes (.clearFiles repository) (c.clear repository)
  /-- The file has to be stored, under whatever repository. -/
  | replaceFacts {file : Int64} {repository : String} {facts : List Fact} {edges : List Edge}
      {newFacts : List StoredFact} {newEdges : List StoredEdge} : c.hasFile file = true →
      checkEdges file repository edges = .ok () →
      newFacts.map (fun x => (x.file, x.repository, x.fact)) =
        facts.map (fun a => (file, repository, a)) →
      newEdges.map (·.toEdge) = edges →
      c.Becomes (.replaceFacts file repository facts edges) (c.replace file newFacts newEdges)
  | updateRepository (u : RepositoryUpdate) (r : Repository) :
      c.Becomes (.updateRepository r.id u) (c.putRepository r)
  | unknownRepository {id : String} : c.knows id = false → c.Becomes (.deleteRepository id) c
  /-- Facts and edges may go that do not hang on the files of the repository. -/
  | deleteRepository {id : String} {facts : List StoredFact} {edges : List StoredEdge} :
      facts.Sublist (c.clear id).facts → edges.Sublist (c.clear id).edges →
      c.Becomes (.deleteRepository id) { c.delete id with facts := facts, edges := edges }

/-- Edges that are to be stored lead to stored files. -/
def HasTargets (c : Contents) : StoreRequest → Prop
  | .replaceFacts _ _ _ edges => ∀ e ∈ edges, ∀ t ∈ e.targetFile, c.hasFile t = true
  | _ => True

namespace Becomes

variable {c c' : Contents} {r : StoreRequest}

theorem distinct (hbec : c.Becomes r c') (h : c.Distinct) : c'.Distinct := by
  cases hbec with
  | same _ => exact h
  | insertFiles _ _ hdistinct => exact hdistinct
  | clearFiles repository => exact h.sublist (List.filter_sublist.map _)
  | replaceFacts _ _ _ _ => exact h
  | updateRepository _ _ => exact h
  | unknownRepository _ => exact h
  | deleteRepository _ _ => exact h.sublist (List.filter_sublist.map _)

end Becomes

end Contents

/-- A store of which it can be told what becomes of its contents, whatever is asked. -/
class OpenStorage (σ : Type) [Storage σ] [LawfulStorage σ] where
  /-- No id has come to stand for two files. -/
  Sound : σ → Prop
  refused {s : σ} {r : StoreRequest} {e : Failure} : (r.perform s).1 = .error e →
    (r.perform s).2 = s
  answered {s : σ} {c : Contents} {r : StoreRequest} {a : StoreAnswer} :
    LawfulStorage.Keeps s c → c.Distinct → (r.perform s).1 = .ok a → Sound (r.perform s).2 →
    ∃ c', LawfulStorage.Keeps (r.perform s).2 c' ∧ c.Becomes r c'

/-! ## The store in memory -/

namespace MemoryStore

/-- The file ids are those of different files, and were all given out before. -/
structure Sound (s : MemoryStore) : Prop where
  keeps : s.Keeps s.contents
  distinct : s.contents.Distinct

theorem answered {s : MemoryStore} {r : StoreRequest} {a : StoreAnswer}
    (hkeeps : s.Keeps s.contents) (hd : s.contents.Distinct) (h : (r.perform s).1 = .ok a)
    (hsound : (r.perform s).2.Sound) :
    s.contents.Becomes r (r.perform s).2.contents := by
  cases r with
  | insertFiles new =>
    obtain ⟨_, hanswer⟩ := Command.telling_ok h
    have hdistinct : (insertFiles new s).2.contents.Distinct := hsound.distinct
    change s.contents.Becomes _ (insertFiles new s).2.contents
    rcases s.insertFiles_cases new with ⟨e, hrun, -⟩ | ⟨stored, id, hrun, hadmits, rfl, -⟩
    · cases hanswer.symm.trans (congrArg Prod.fst hrun)
    · rw [hrun] at hdistinct ⊢
      exact .insertFiles hadmits (by rw [List.map_map]; rfl) hdistinct
  | clearFiles repository =>
    have hcontents := (removeFiles_keeps hkeeps hd repository).contents
    change s.contents.Becomes _ (s.removeFiles (s.contents.idsOf repository)).contents
    rw [hcontents]
    exact .clearFiles repository
  | replaceFacts file repository facts edges =>
    obtain ⟨_, hrun⟩ := Command.telling_ok h
    change s.contents.Becomes _ (replaceFacts file repository facts edges s).2.contents
    rcases s.replaceFacts_cases file repository facts edges with ⟨e, hrefused, -⟩ |
      ⟨newFacts, newEdges, id, hreplaced, hcheck, hstored, hfacts, hedges, -⟩
    · cases hrun.symm.trans (congrArg Prod.fst hrefused)
    · rw [hreplaced]
      exact .replaceFacts hstored hcheck hfacts hedges
  | updateRepository id u =>
    obtain ⟨s', hrun, -, hcontents⟩ := s.updateRepository_contents id u
    change s.contents.Becomes _ (updateRepository id u s).2.contents
    rw [hrun, hcontents]
    have hbec := Contents.Becomes.updateRepository (c := s.contents) u (s.contents.updated id u)
    rwa [s.contents.updated_id id u] at hbec
  | deleteRepository id =>
    change s.contents.Becomes _ (deleteRepository id s).2.contents
    cases hk : s.contents.knows id with
    | false =>
      have hunknown : s.knows id = false := hk
      simp only [deleteRepository, hunknown, Bool.false_eq_true, if_false]
      exact .unknownRepository hk
    | true =>
      obtain ⟨s', hrun, -, hkept⟩ := deleteRepository_leaves hkeeps hd hk
      rw [hrun, hkept.contents]
      exact .deleteRepository (.refl _) List.filter_sublist
  | files repository => exact .same trivial
  | factsOfFile file => exact .same trivial
  | facts repository => exact .same trivial
  | edges repository => exact .same trivial
  | repository id => exact .same trivial

instance : OpenStorage MemoryStore where
  Sound := Sound
  refused := refused
  answered {s c r a} h hd hr hsound := by
    obtain rfl := h.contents
    exact ⟨_, hsound.keeps, answered h hd hr hsound⟩

/-- No two files come to one id as long as the counter does not run over. -/
theorem Numbers.sound {s : MemoryStore} {given : List Int64} (h : s.Numbers given)
    (hroom : given.length < Text.wordSize 63) : s.Sound where
  keeps := by
    refine ⟨rfl, fun f hf => ?_⟩
    exact (h.numbered hroom).upTo f.id (h.files.subset (List.mem_map_of_mem hf))
  distinct := (h.numbered hroom).nodup.sublist h.files

theorem sound_after {before later : List StoreRequest}
    (hroom : (empty.idsGiven (before ++ later)).length < Text.wordSize 63) :
    (Storage.after empty before).Sound := by
  rw [idsGiven_append, List.length_append] at hroom
  exact (numbers_after before).sound (by omega)

end MemoryStore

/-! ## The database -/

namespace Relational.Database

variable {d : Database} {c : Contents}

/-- Where facts and edges are replaced, the file is stored, and edges lead to stored files. -/
theorem replaceFacts_leaves (h : d.Keeps c) {file : Int64} {repository : String} {facts : List Fact}
    {edges : List Edge} {u : Unit}
    (hrun : (Storage.replaceFacts file repository facts edges d).1 = .ok u) :
    ∃ c', (Storage.replaceFacts file repository facts edges d).2.Keeps c' ∧
      c.Becomes (.replaceFacts file repository facts edges) c' ∧
      c.HasTargets (.replaceFacts file repository facts edges) := by
  simp only [Storage.replaceFacts] at hrun ⊢
  cases hcheck : checkEdges file repository edges with
  | error e =>
    simp only [hcheck] at hrun
    cases hrun
  | ok _ =>
    simp only [hcheck] at hrun ⊢
    have hrows := transaction_answered (Prod.ext hrun rfl)
    obtain ⟨newFacts, newEdges, hkept, hfile, hfacts, hedges, htargets⟩ :=
      replaceRows_leaves h hrows
    exact ⟨_, hkept, .replaceFacts hfile hcheck hfacts hedges, htargets⟩

theorem answered {r : StoreRequest} {a : StoreAnswer} (h : d.Keeps c) (hd : c.Distinct)
    (hr : (r.perform d).1 = .ok a) :
    ∃ c', (r.perform d).2.Keeps c' ∧ c.Becomes r c' ∧ c.HasTargets r := by
  cases r with
  | insertFiles new =>
    obtain ⟨stored, hrun⟩ := Command.telling_ok hr
    have hrun := transaction_answered (Prod.ext hrun rfl)
    obtain ⟨kept, hkept, hadmits, hkeys, hdistinct⟩ := collect_insertFile_leaves h hd hrun
    exact ⟨_, hkept, .insertFiles hadmits hkeys hdistinct, trivial⟩
  | clearFiles repository =>
    exact ⟨_, deleteFiles_keeps h repository, .clearFiles repository, trivial⟩
  | replaceFacts file repository facts edges =>
    obtain ⟨_, hrun⟩ := Command.telling_ok hr
    exact replaceFacts_leaves h hrun
  | updateRepository id u =>
    obtain ⟨kept, rows, hrun, rfl, -, hkept⟩ := updateRow_keeps h id u
    refine ⟨_, ?_, .updateRepository u kept, trivial⟩
    change (transaction (updateRow kept.id u) d).2.Keeps _
    rw [transaction_ok hrun]
    exact hkept
  | deleteRepository id =>
    exact ⟨_, deleteRepositoryRow_leaves h id,
      .deleteRepository List.filter_sublist List.filter_sublist, trivial⟩
  | files repository => exact ⟨c, h, .same trivial, trivial⟩
  | factsOfFile file => exact ⟨c, h, .same trivial, trivial⟩
  | facts repository => exact ⟨c, h, .same trivial, trivial⟩
  | edges repository => exact ⟨c, h, .same trivial, trivial⟩
  | repository id => exact ⟨c, h, .same trivial, trivial⟩

/-- The counters of the tables stop before they run over. -/
instance : OpenStorage Database where
  Sound _ := True
  refused := refused
  answered h hd hr _ := by
    obtain ⟨c', hkept, hbec, -⟩ := answered h hd hr
    exact ⟨c', hkept, hbec⟩

end Relational.Database

end CodeSurvey
