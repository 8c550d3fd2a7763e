-- A value that is written straight into a row, past the store. It is refused, and the database
-- stays as it is, or its keys hold behind it and the store answers as before about each
-- repository that the row does not belong to, neither before nor afterwards.
import CodeSurvey.Proofs.Store.Rows
import CodeSurvey.Store.Relational.Direct

namespace CodeSurvey.Relational

/-! ## Rows -/

section Rows

variable {ρ ι : Type} {idOf : ρ → ι} {chosen : ι → Bool} {rows rows' : List ρ}

/-- The rows have the ids that they had, and those that are not chosen are as they were. -/
def RowsBut (idOf : ρ → ι) (chosen : ι → Bool) (rows rows' : List ρ) : Prop :=
  List.Forall₂ (fun r r' => idOf r' = idOf r ∧ (chosen (idOf r) = false → r' = r)) rows rows'

/-- A query that no chosen row takes part in reads the same rows. -/
theorem RowsBut.filter_eq {p : ρ → Bool} (h : RowsBut idOf chosen rows rows')
    (hold : ∀ r ∈ rows, chosen (idOf r) = true → p r = false)
    (hnew : ∀ r ∈ rows', chosen (idOf r) = true → p r = false) :
    rows'.filter p = rows.filter p := by
  induction h with
  | nil => rfl
  | @cons r r' rows rows' hr _ ih =>
    have hrest := ih (fun r hr => hold r (.tail _ hr)) (fun r hr => hnew r (.tail _ hr))
    cases hchosen : chosen (idOf r) with
    | false => rw [hr.2 hchosen, List.filter_cons, List.filter_cons, hrest]
    | true =>
      have hp : p r = false := hold r (.head _) hchosen
      have hp' : p r' = false := hnew r' (.head _) (by rw [hr.1, hchosen])
      rw [List.filter_cons, List.filter_cons, hp, hp', hrest]
      rfl

/-- Setting the column leaves alone what is read of a row. -/
def Column.Keeps (of : ρ → ι) : Column ρ → Prop
  | text set => ∀ v r, of (set v r) = of r
  | optionalText set => ∀ v r, of (set v r) = of r
  | number set => ∀ v r, of (set v r) = of r
  | optionalId set => ∀ v r, of (set v r) = of r
  | id set => ∀ v r, of (set v r) = of r

theorem Column.Keeps.withId {of : ρ → ι} {set : Int64 → ρ → ρ}
    (hset : ∀ v r, of (set v r) = of r) {r r' : ρ} {s : String}
    (h : Column.put.withId r set s = .ok r') : of r' = of r := by
  unfold Column.put.withId at h
  split at h
  · obtain rfl := Except.ok.inj h
    exact hset _ r
  · cases h

theorem Column.Keeps.put {of : ρ → ι} {c : Column ρ} (hc : c.Keeps of) {name : String}
    {value : Option String} {r r' : ρ} (h : c.put name value r = .ok r') : of r' = of r := by
  unfold Column.put at h
  split at h
  · obtain rfl := Except.ok.inj h
    exact hc _ r
  · obtain rfl := Except.ok.inj h
    exact hc _ r
  · obtain rfl := Except.ok.inj h
    exact hc _ r
  · obtain rfl := Except.ok.inj h
    exact hc _ r
  · exact Keeps.withId (fun v r => hc (some v) r) h
  · exact Keeps.withId hc h
  · cases h

/-- A value is set in the chosen rows, and in no others. -/
theorem putWhere_ok {columns : List (String × Column ρ)} (hkeeps : ∀ c ∈ columns, c.2.Keeps idOf)
    (chosen : ι → Bool) {table name : String} {value : Option String} {n : Nat}
    (h : putWhere table columns name value (fun r => chosen (idOf r)) rows = .ok (n, rows')) :
    RowsBut idOf chosen rows rows' := by
  unfold putWhere at h
  split at h
  · cases h
  · rename_i c hfind
    obtain ⟨written, hwritten, h⟩ := exists_of_bind_ok h
    obtain rfl : written = rows' := congrArg Prod.snd (Except.ok.inj h)
    refine (forall₂_of_mapM_eq_ok hwritten).imp fun r r' hr => ?_
    split at hr
    · rename_i hchosen
      have hid := (hkeeps _ (List.mem_of_find?_eq_some hfind)).put hr
      exact ⟨hid, fun hnot => absurd (hchosen.symm.trans hnot) (by decide)⟩
    · obtain rfl := Except.ok.inj hr
      exact ⟨rfl, fun _ => rfl⟩

end Rows

theorem RepositoryRow.columns_keep : ∀ c ∈ columns, c.2.Keeps (·.id) := by
  simp [columns, Column.Keeps]

theorem FileRow.columns_keep : ∀ c ∈ columns, c.2.Keeps (·.id) := by
  simp [columns, Column.Keeps]

theorem FactRow.columns_keep : ∀ c ∈ columns, c.2.Keeps (·.id) := by
  simp [columns, Column.Keeps]

theorem EdgeRow.columns_keep : ∀ c ∈ columns, c.2.Keeps (·.id) := by
  simp [columns, Column.Keeps]

namespace Database

variable {d d' : Database} {table column : String} {id : Int64 ⊕ String} {value : Option String}
  {n : Nat}

/-! ## One write -/

/-- No two files of a repository have one path, and no row names what is not there. -/
def KeysHold (d : Database) : Prop := d.doubledPath = false ∧ d.danglingKey = false

theorem checked_ok (h : d.checked = .ok d') : d.KeysHold ∧ d' = d := by
  unfold checked at h
  split at h
  · cases h
  · rename_i hpath
    split at h
    · cases h
    · rename_i hkey
      exact ⟨⟨by simpa using hpath, by simpa using hkey⟩, (Except.ok.inj h).symm⟩

/-- What a write can change: the rows with the id, in the one table. -/
inductive Written (id : Int64 ⊕ String) (d : Database) : String → Database → Prop
  | repositories {rows} (h : RowsBut (·.id) (fun s => id == .inr s) d.repositories rows) :
    Written id d "repositories" { d with repositories := rows }
  | files {rows} (h : RowsBut (·.id) (fun n => id == .inl n) d.files.rows rows) :
    Written id d "files" { d with files.rows := rows }
  | facts {rows} (h : RowsBut (·.id) (fun n => id == .inl n) d.facts.rows rows) :
    Written id d "structural_facts" { d with facts.rows := rows }
  | edges {rows} (h : RowsBut (·.id) (fun n => id == .inl n) d.edges.rows rows) :
    Written id d "dependency_edges" { d with edges.rows := rows }

theorem put_ok (h : d.put table column id value = .ok (n, d')) :
    d'.KeysHold ∧ Written id d table d' := by
  unfold put at h
  split at h
  all_goals try cases h
  all_goals
    obtain ⟨⟨m, rows⟩, hrows, h⟩ := exists_of_bind_ok h
    obtain ⟨changed, hchecked, h⟩ := exists_of_bind_ok h
    obtain rfl : changed = d' := congrArg Prod.snd (Except.ok.inj h)
    obtain ⟨hkeys, rfl⟩ := checked_ok hchecked
    refine ⟨hkeys, ?_⟩
  · exact .repositories (putWhere_ok RepositoryRow.columns_keep _ hrows)
  · exact .files (putWhere_ok FileRow.columns_keep _ hrows)
  · exact .facts (putWhere_ok FactRow.columns_keep _ hrows)
  · exact .edges (putWhere_ok EdgeRow.columns_keep _ hrows)

/-! ## What the store answers -/

/-- The row with the id is of the repository. -/
def RowOf (d : Database) (table : String) (id : Int64 ⊕ String) (repository : String) : Prop :=
  match table with
  | "repositories" => id = .inr repository
  | "files" => ∃ r ∈ d.files.rows, id = .inl r.id ∧ r.repository = repository
  | "structural_facts" => ∃ r ∈ d.facts.rows, id = .inl r.id ∧ r.repository = repository
  | "dependency_edges" => ∃ r ∈ d.edges.rows, id = .inl r.id ∧ r.repository = repository
  | _ => False

/-- The store answers the same about the repository. -/
structure AnswersAlike (repository : String) (d d' : Database) : Prop where
  record : d'.selectRepository repository = d.selectRepository repository
  files : d'.selectFiles repository = d.selectFiles repository
  facts : d'.selectFacts repository = d.selectFacts repository
  edges : d'.selectEdges repository = d.selectEdges repository

theorem eq_inl_of_beq {m : Int64} (h : (id == .inl m) = true) : id = .inl m := by
  cases id with
  | inl k => exact congrArg _ (eq_of_beq (show (k == m) = true from h))
  | inr s => cases h

theorem eq_inr_of_beq {s : String} (h : (id == .inr s) = true) : id = .inr s := by
  cases id with
  | inl k => cases h
  | inr t => exact congrArg _ (eq_of_beq (show (t == s) = true from h))

/-- The rows of a repository are the same when the row with the id is none of them. -/
theorem filter_repository {ρ : Type} {idOf : ρ → Int64} {repositoryOf : ρ → String}
    {rows rows' : List ρ} {repository : String}
    (h : RowsBut idOf (fun n => id == .inl n) rows rows')
    (hold : ¬ ∃ r ∈ rows, id = .inl (idOf r) ∧ repositoryOf r = repository)
    (hnew : ¬ ∃ r ∈ rows', id = .inl (idOf r) ∧ repositoryOf r = repository) :
    rows'.filter (fun r => repositoryOf r == repository) =
      rows.filter (fun r => repositoryOf r == repository) :=
  h.filter_eq
    (fun r hr hid => beq_eq_false_iff_ne.2 fun heq => hold ⟨r, hr, eq_inl_of_beq hid, heq⟩)
    (fun r hr hid => beq_eq_false_iff_ne.2 fun heq => hnew ⟨r, hr, eq_inl_of_beq hid, heq⟩)

theorem Written.answersAlike {repository : String} (h : Written id d table d')
    (hold : ¬ d.RowOf table id repository) (hnew : ¬ d'.RowOf table id repository) :
    AnswersAlike repository d d' := by
  cases h with
  | @repositories rows h =>
    have hother : ∀ r : RepositoryRow, (id == .inr r.id) = true →
        (r.id == repository) = false := fun r hr =>
      beq_eq_false_iff_ne.2 fun heq => hold (heq ▸ eq_inr_of_beq hr)
    have hsame : rows.find? (fun r => r.id == repository) =
        d.repositories.find? (fun r => r.id == repository) := by
      rw [← List.head?_filter, ← List.head?_filter,
        h.filter_eq (fun r _ => hother r) (fun r _ => hother r)]
    exact ⟨by simp only [selectRepository, hsame], rfl, rfl, rfl⟩
  | files h => exact ⟨rfl, by simp only [selectFiles, filter_repository h hold hnew], rfl, rfl⟩
  | facts h => exact ⟨rfl, rfl, by simp only [selectFacts, filter_repository h hold hnew], rfl⟩
  | edges h => exact ⟨rfl, rfl, rfl, by simp only [selectEdges, filter_repository h hold hnew]⟩

/-- A write that is refused changes nothing. Any other leaves the keys whole, and what the store
answers about the repositories that the row belongs to neither before nor afterwards. -/
theorem write_is_local (d : Database) (table column : String) (id : Int64 ⊕ String)
    (value : Option String) :
    (∃ i, write table column id value d = (.error (.database i), d)) ∨
      ∃ n d', write table column id value d = (.ok n, d') ∧ d'.KeysHold ∧ Written id d table d' ∧
        ∀ repository, ¬ d.RowOf table id repository → ¬ d'.RowOf table id repository →
          AnswersAlike repository d d' := by
  unfold write
  cases h : d.put table column id value with
  | error i => exact .inl ⟨i, rfl⟩
  | ok found =>
    obtain ⟨n, d'⟩ := found
    obtain ⟨hkeys, hwritten⟩ := put_ok h
    exact .inr ⟨n, d', rfl, hkeys, hwritten, fun _ => hwritten.answersAlike⟩

end Database

end CodeSurvey.Relational
