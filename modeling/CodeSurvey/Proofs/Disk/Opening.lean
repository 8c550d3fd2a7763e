-- How a database is opened: the directories above it are made, the layout is brought up to date,
-- and the database is put back where it was, with nothing else touched. One with a later version
-- is refused and stays as it is.
import CodeSurvey.Proofs.Disk.Making
import CodeSurvey.Proofs.Disk.Resolving
import CodeSurvey.Proofs.Store.Layout

namespace CodeSurvey.Disk

/-! ## A file over a file -/

variable {root : Node} {names : List String} {c c' : Content}

theorem Node.at?_put_self {y : Node} (x : Node) (h : root.at? names = some y) :
    (root.put x names).at? names = some x := by
  induction names using List.reverseRecOn with
  | nil => rfl
  | append_singleton above name _ =>
    obtain ⟨es, hdir⟩ := Node.directory_above h
    rw [Node.at?_put x hdir, Node.at?_nil]

/-- A file over a file touches nothing else: below a file nothing stands. -/
theorem passable_put (h : root.at? names = some (.file c)) :
    Passable root (root.put (.file c') names) := by
  intro q b hb
  by_cases hle : names <+: q
  · obtain ⟨rest, rfl⟩ := hle
    obtain ⟨x, hx, rfl⟩ := Node.stands_eq_some.1 hb
    rw [Node.at?_append, h, Option.bind_some] at hx
    cases rest with
    | nil =>
      obtain rfl := Option.some.inj hx
      refine .inr ⟨c, c', rfl, ?_⟩
      rw [List.append_nil, Node.stands, Node.at?_put_self _ h]
      rfl
    | cons name rest => cases hx
  · exact .inl (by rw [Node.stands_put _ _ hle, hb])

/-! ## A database at a path -/

variable {d d' : Disk} {path : String} {db : Relational.Database}

theorem databaseAt_cases (h : databaseAt path d = .ok db) :
    (∃ directory name, d.place true path = .ok (.free directory name)) ∨
      ∃ names c, d.place true path = .ok (.taken names) ∧ d.root.at? names = some (.file c) := by
  unfold databaseAt at h
  split at h
  · rename_i directory name hplace
    exact .inl ⟨directory, name, hplace⟩
  · rename_i names hplace
    split at h
    · rename_i hfile
      exact .inr ⟨names, _, hplace, hfile⟩
    · rename_i c _ hfile
      exact .inr ⟨names, c, hplace, hfile⟩
    · cases h
  · cases h

theorem databaseAt_locate (h : d.locate true path = .ok names)
    (hfile : d.root.at? names = some (.file (.database db))) : databaseAt path d = .ok db := by
  unfold databaseAt
  rw [locate_ok.1 h]
  simp only [hfile]

/-- Where a database can be read one can be written: one file is put where the path leads then,
and is read back. -/
theorem write_database (h : databaseAt path d = .ok db) (db' : Relational.Database) :
    ∃ names, d.write (.database db') path = .ok (d.put (.file (.database db')) names) ∧
      (d.put (.file (.database db')) names).locate true path = .ok names ∧
      databaseAt path (d.put (.file (.database db')) names) = .ok db' := by
  rcases databaseAt_cases h with ⟨directory, name, hplace⟩ | ⟨names, c, hplace, hfile⟩
  · -- the way ended at a name that was free, and goes one step further to the new file
    obtain ⟨⟨es, hdir⟩, hnone⟩ := place_free hplace
    have hput : (d.put (.file (.database db')) (directory ++ [name])).root.at?
        (directory ++ [name]) = some (.file (.database db')) := by
      rw [put, Node.at?_put _ hdir, Node.at?_nil]
    have hkept : Extends d.root (d.put (.file (.database db')) (directory ++ [name])).root :=
      .put _ hnone
    have hlocate := hkept.passable.locate_free rfl hplace hput (by simp)
    refine ⟨directory ++ [name], ?_, hlocate, databaseAt_locate hlocate hput⟩
    simp [write, hplace, bind, Except.bind, pure, Except.pure]
  · -- the way led to a file, and no way goes through a file
    have hput : (d.put (.file (.database db')) names).root.at? names =
        some (.file (.database db')) := Node.at?_put_self _ hfile
    have hpass : Passable d.root (d.put (.file (.database db')) names).root := passable_put hfile
    have hlocate := hpass.locate rfl (locate_ok.2 hplace)
    refine ⟨names, ?_, hlocate, databaseAt_locate hlocate hput⟩
    simp [write, hplace, hfile, Node.isDirectory, bind, Except.bind, pure, Except.pure]

/-! ## Opening -/

/-- Makes the directories above a path. -/
def madeAbove (path : String) : Command Disk Unit :=
  match Path.parent? path with
  | some above => ensureDirectories above
  | none => .answer ()

theorem madeAbove_keeps (path : String) (d : Disk) : Kept d (madeAbove path d).2 := by
  unfold madeAbove
  cases Path.parent? path with
  | none => exact .refl d
  | some above => exact ensureDirectories_keeps above d

variable {home : Option String}

/-- Where the directories above a database are made and it can be read, the layout decides. -/
theorem openDatabase_read (hmade : madeAbove (d.resolved home path) d = (.ok (), d'))
    (hread : databaseAt (d.resolved home path) d' = .ok db) :
    openDatabase home path d =
      match db.applySchema with
      | (.ok (), db') => (putDatabase db' (d.resolved home path)).followedBy
          (.answer (d.resolved home path)) d'
      | (.error f, _) => (.error f, d') := by
  have hstep : openDatabase home path d =
      ((madeAbove (d.resolved home path)).followedBy
        ((Command.ask (databaseAt (d.resolved home path))).andThen (fun db =>
          match db.applySchema with
          | (.ok (), db) => (putDatabase db (d.resolved home path)).followedBy
              (.answer (d.resolved home path))
          | (.error f, _) => .fail f))) d := rfl
  rw [hstep, Command.followedBy, Command.andThen, hmade]
  simp only [Command.andThen, Command.ask, hread]
  rcases db.applySchema with ⟨f | ⟨⟩, db'⟩
  · rfl
  · rfl

open Relational.Database (newerVersion UpToDate applySchema_later applySchema_ok)

/-- A database with a later version is refused and stays as it is, whether it is opened or not; any
other one is brought up to date, and opening it puts that one file where the path leads. A version
is later that reads as a number of 32 bits: from the first that does not, it is taken for none. -/
theorem later_refused_others_brought_up_to_date (db : Relational.Database) :
    (∀ n, db.Later n → db.applySchema = (.error (newerVersion n), db)) ∧
      ((∀ n, ¬ db.Later n) → ∃ db', db.applySchema = (.ok (), db') ∧ UpToDate db db') ∧
      ∀ home path d d', madeAbove (d.resolved home path) d = (.ok (), d') →
        databaseAt (d.resolved home path) d' = .ok db →
        Kept d d' ∧
          (∀ n, db.Later n → openDatabase home path d = (.error (newerVersion n), d')) ∧
          ((∀ n, ¬ db.Later n) → ∃ db' names, UpToDate db db' ∧
            openDatabase home path d =
              (.ok (d.resolved home path), d'.put (.file (.database db')) names) ∧
            (d'.put (.file (.database db')) names).locate true (d.resolved home path) =
              .ok names ∧
            databaseAt (d.resolved home path) (d'.put (.file (.database db')) names) =
              .ok db') := by
  refine ⟨fun n => applySchema_later, applySchema_ok, fun home path d d' hmade hread => ?_⟩
  have hopen := openDatabase_read hmade hread
  refine ⟨?_, fun n hlater => ?_, fun hothers => ?_⟩
  · have hkept := madeAbove_keeps (d.resolved home path) d
    rwa [hmade] at hkept
  · rw [hopen, applySchema_later hlater]
  · obtain ⟨db', happly, hdate⟩ := applySchema_ok hothers
    obtain ⟨names, hwrite, hlocate, hback⟩ := write_database hread db'
    refine ⟨db', names, hdate, ?_, hlocate, hback⟩
    rw [hopen, happly]
    simp only [putDatabase, Command.followedBy, Command.andThen, change, hwrite, Command.answer]

/-- A disk with one file, a database that was just made, but for its stamp. -/
def stamped (text : String) : Disk :=
  ⟨.directory [("x.db", .file (.database (.stamp (some text) .fresh)))], []⟩

theorem version_two_refused_none_brought_up_to_date :
    (Relational.Database.stamp (some "2") .fresh).Later 2 ∧
      (openDatabase none "/x.db" (stamped "2")).1 = .error (newerVersion 2) ∧
      databaseAt "/x.db" (openDatabase none "/x.db" (stamped "2")).2 =
        .ok (.stamp (some "2") .fresh) ∧
      (∀ n, ¬ Relational.Database.blank.Later n) ∧
      ∃ db', Relational.Database.blank.applySchema = (.ok (), db') ∧
        UpToDate .blank db' := by
  have hnone : ∀ n, ¬ Relational.Database.blank.Later n := by
    rintro n ⟨⟨text, htext, -⟩, -⟩
    cases htext
  have hlater : (Relational.Database.stamp (some "2") .fresh).Later 2 :=
    ⟨Relational.Database.stamped_stamp (Text.writes_toString 2) .fresh, by decide, by decide⟩
  have hfull : (stamped "2").resolved none "/x.db" = "/x.db" := by decide +kernel
  have hok : (madeAbove "/x.db" (stamped "2")).1.isOk = true := by decide +kernel
  have hread : databaseAt "/x.db" (madeAbove "/x.db" (stamped "2")).2 =
      .ok (.stamp (some "2") .fresh) := by decide +kernel
  rcases hmade : madeAbove "/x.db" (stamped "2") with ⟨f | ⟨⟩, d'⟩ <;> rw [hmade] at hok hread
  · cases hok
  · rw [← hfull] at hmade hread
    have hdecides := later_refused_others_brought_up_to_date (.stamp (some "2") .fresh)
    have hrefused := (hdecides.2.2 _ _ _ _ hmade hread).2.1 2 hlater
    rw [hfull] at hread
    rw [hrefused]
    exact ⟨hlater, rfl, hread, hnone,
      (later_refused_others_brought_up_to_date .blank).2.1 hnone⟩

/-- The first number that is no number of 32 bits is stamped, and gives way to an earlier
version. -/
theorem first_beyond_32_bits_overwritten :
    (Relational.Database.stamp (some "2147483648") .fresh).Stamped 2147483648 ∧
      Relational.Database.schemaVersion < 2147483648 ∧
      (Relational.Database.stamp (some "2147483648") .fresh).applySchema = (.ok (), .fresh) ∧
      (openDatabase none "/x.db" (stamped "2147483648")).1 = .ok "/x.db" ∧
      databaseAt "/x.db" (openDatabase none "/x.db" (stamped "2147483648")).2 = .ok .fresh :=
  ⟨Relational.Database.stamped_stamp (Text.writes_toString 2147483648) .fresh, by decide,
    by decide +kernel, by decide +kernel, by decide +kernel⟩

end CodeSurvey.Disk
