-- What is asked of a store, with whatever arguments: a file may be named that was
-- never stored, or by a repository that is not its own, and an edge may lead
-- anywhere. A run is a list of requests, made one after the other.
import CodeSurvey.Proofs.Store.Agreement

namespace CodeSurvey

/-! ## Requests -/

/-- A request to a store. A file is named by an id and a repository as they are given. -/
inductive StoreRequest where
  | insertFiles (files : List NewFile)
  | files (repository : String)
  | clearFiles (repository : String)
  | replaceFacts (file : Int64) (repository : String) (facts : List Fact) (edges : List Edge)
  | factsOfFile (file : Int64)
  | facts (repository : String)
  | edges (repository : String)
  | updateRepository (id : String) (update : RepositoryUpdate)
  | repository (id : String)
  | deleteRepository (id : String)

/-- The operation, with its answer told in another form. -/
def Command.telling {σ α β : Type} (c : Command σ α) (f : α → β) : Command σ β := fun s =>
  ((c s).1.map f, (c s).2)

section Telling

variable {σ α β : Type} {c : Command σ α} {f : α → β} {s : σ}

/-- The answer in the other form is that of the operation. -/
theorem Command.telling_ok {b : β} (h : (c.telling f s).1 = .ok b) : ∃ a, (c s).1 = .ok a := by
  cases hc : (c s).1 with
  | ok a => exact ⟨a, rfl⟩
  | error e =>
    simp only [Command.telling, hc, Except.map] at h
    cases h

theorem Command.telling_error {e : Failure} :
    (c.telling f s).1 = .error e ↔ (c s).1 = .error e := by
  cases hc : (c s).1 <;> simp [Command.telling, hc, Except.map]

end Telling

section Runs

variable {σ : Type} [Storage σ]

/-- What comes of a request. -/
def StoreRequest.perform : StoreRequest → Command σ StoreAnswer
  | insertFiles new => (Storage.insertFiles new).telling .files
  | files id => (Storage.files id).telling .files
  | clearFiles id => (Storage.clearFiles id).telling .count
  | replaceFacts file id xs es => (Storage.replaceFacts file id xs es).telling (fun _ => .done)
  | factsOfFile file => (Storage.factsOfFile file).telling .facts
  | facts id => (Storage.facts id).telling .facts
  | edges id => (Storage.edges id).telling .edges
  | updateRepository id u => (Storage.updateRepository id u).telling (fun r => .repository (some r))
  | repository id => (Storage.repository id).telling .repository
  | deleteRepository id => (Storage.deleteRepository id).telling .flag

/-! ## Runs -/

namespace Storage

/-- The store after a run. -/
def after (s : σ) (run : List StoreRequest) : σ := run.foldl (fun s r => (r.perform s).2) s

/-- The answers to a run, one for each request. -/
def answers (s : σ) : List StoreRequest → List (Except Failure StoreAnswer)
  | [] => []
  | r :: rest => (r.perform s).1 :: answers (r.perform s).2 rest

theorem after_cons (s : σ) (r : StoreRequest) (rest : List StoreRequest) :
    after s (r :: rest) = after (r.perform s).2 rest := rfl

theorem after_append (s : σ) (run later : List StoreRequest) :
    after s (run ++ later) = after (after s run) later :=
  List.foldl_append

/-- What every request keeps, a run keeps. -/
theorem after_keeps {P : σ → Prop} (hstep : ∀ s r, P s → P (StoreRequest.perform r s).2) {s : σ}
    (hs : P s) (run : List StoreRequest) : P (after s run) := by
  induction run generalizing s with
  | nil => exact hs
  | cons r rest ih => exact ih (hstep s r hs)

/-- It holds of the store before a run and after each of its requests. -/
def Throughout (P : σ → Prop) (s : σ) (run : List StoreRequest) : Prop :=
  ∀ before later, run = before ++ later → P (after s before)

/-- It holds of each request of a run and the store that it is made to. -/
def Heeded (Q : σ → StoreRequest → Prop) (s : σ) (run : List StoreRequest) : Prop :=
  ∀ before r later, run = before ++ r :: later → Q (after s before) r

variable {P : σ → Prop} {Q : σ → StoreRequest → Prop} {s : σ} {r : StoreRequest}
  {rest : List StoreRequest}

theorem throughout_nil : Throughout P s [] ↔ P s := by
  constructor
  · exact fun h => h [] [] rfl
  · intro hs before later heq
    rw [(List.append_eq_nil_iff.1 heq.symm).1]
    exact hs

theorem throughout_cons :
    Throughout P s (r :: rest) ↔ P s ∧ Throughout P (r.perform s).2 rest := by
  constructor
  · intro h
    exact ⟨h [] (r :: rest) rfl, fun before later heq => h (r :: before) later (by rw [heq]; rfl)⟩
  · rintro ⟨hs, hrest⟩ before later heq
    cases before with
    | nil => exact hs
    | cons r' before =>
      obtain ⟨rfl, htail⟩ := List.cons.inj heq
      exact hrest before later htail

theorem Throughout.here {run : List StoreRequest} (h : Throughout P s run) : P s := h [] run rfl

theorem heeded_nil : Heeded Q s [] := by
  intro before r later heq
  simp at heq

theorem heeded_cons : Heeded Q s (r :: rest) ↔ Q s r ∧ Heeded Q (r.perform s).2 rest := by
  constructor
  · intro h
    exact ⟨h [] r rest rfl, fun before r' later heq => h (r :: before) r' later (by rw [heq]; rfl)⟩
  · rintro ⟨hr, hrest⟩ before r' later heq
    cases before with
    | nil =>
      obtain ⟨rfl, -⟩ := List.cons.inj heq
      exact hr
    | cons r'' before =>
      obtain ⟨rfl, htail⟩ := List.cons.inj heq
      exact hrest before r' later htail

end Storage

/-! ## Answers -/

/-- The store answers the request, and does not refuse it. -/
def StoreRequest.AnsweredBy (r : StoreRequest) (s : σ) : Prop := ∃ a, (r.perform s).1 = .ok a

/-- A question to the store is answered from the contents. -/
structure AnswersFrom (s : σ) (c : Contents) : Prop where
  files (repository : String) : (Storage.files repository s).1 = .ok (c.filesOf repository)
  factsOfFile (file : Int64) : (Storage.factsOfFile file s).1 = .ok (c.factsOfFile file)
  facts (repository : String) : (Storage.facts repository s).1 = .ok (c.factsOf repository)
  edges (repository : String) : (Storage.edges repository s).1 = .ok (c.edgesOf repository)
  repository (id : String) : (Storage.repository id s).1 = .ok (c.repositoryOf id)

theorem LawfulStorage.answersFrom [LawfulStorage σ] {s : σ} {c : Contents}
    (h : LawfulStorage.Keeps s c) : AnswersFrom s c where
  files repository := congrArg Prod.fst (LawfulStorage.files repository h)
  factsOfFile file := congrArg Prod.fst (LawfulStorage.factsOfFile file h)
  facts repository := congrArg Prod.fst (LawfulStorage.facts repository h)
  edges repository := congrArg Prod.fst (LawfulStorage.edges repository h)
  repository id := congrArg Prod.fst (LawfulStorage.repository id h)

end Runs

/-- The store in memory is asked for its lists, in whatever state it is. -/
theorem MemoryStore.answersFrom (s : MemoryStore) : AnswersFrom s s.contents where
  files _ := rfl
  factsOfFile _ := rfl
  facts _ := rfl
  edges _ := rfl
  repository _ := rfl

end CodeSurvey
