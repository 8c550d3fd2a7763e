-- Where the path of a database leads. A tilde in front is the home directory, and a path that
-- does not start at the root starts where one works; what comes behind is kept, part by part.
-- Where two slashes follow the tilde, the path starts at the root and home is lost.
import CodeSurvey.Disk.Database
import CodeSurvey.Proofs.Disk.Path
import CodeSurvey.Proofs.Store.Statement

namespace CodeSurvey.Path

/-! ## One path after another -/

theorem ne_empty_of_isAbsolute {path : String} (h : isAbsolute path = true) : path ≠ "" := by
  rintro rfl
  simp [isAbsolute] at h

theorem parts_of_isAbsolute {path : String} (h : isAbsolute path = true) :
    parts path = .root :: ((Disk.pieces path).filter moves).map ofStep := by
  rw [parts_eq, lead, if_pos h]
  rfl

theorem isAbsolute_join {base : String} (h : isAbsolute base = true) (path : String) :
    isAbsolute (join base path) = true := by
  have hne := ne_empty_of_isAbsolute h
  unfold join
  split
  · assumption
  · rw [if_neg (by simpa using hne)]
    split
    · rw [isAbsolute_append hne, h]
    · rw [String.append_assoc, isAbsolute_append hne, h]

theorem not_here_ofStep (pieces : List String) :
    (pieces.map ofStep).filter (· ≠ .here) = pieces.map ofStep :=
  List.filter_eq_self.2 fun p hp => by
    obtain ⟨s, -, rfl⟩ := List.mem_map.1 hp
    simpa using (ofStep_ne s).2

/-- The parts of a path that does not start at the root, but for this directory in front: one
for each piece that moves. -/
theorem filter_parts {path : String} (h : isAbsolute path = false) :
    (parts path).filter (· ≠ .here) = ((Disk.pieces path).filter moves).map ofStep := by
  rw [parts_eq, List.filter_append, not_here_ofStep, lead, h]
  by_cases hdot : (Disk.pieces path).head? = some "." <;> simp [hdot]

/-- A path that does not start at the root comes behind another, part by part. -/
theorem parts_behind {base path : String} (hbase : isAbsolute base = true)
    (hpath : isAbsolute path = false) :
    parts (join base path) = parts base ++ (parts path).filter (· ≠ .here) := by
  have hne := ne_empty_of_isAbsolute hbase
  have hlead : lead (join base path) = lead base := by
    simp only [lead, isAbsolute_join hbase, hbase, if_true]
  have hjoin : join base path = if base.toList.getLast? = some '/' then base ++ path
      else base ++ "/" ++ path := by
    rw [join, hpath, if_neg (by simp), if_neg (by simpa using hne)]
  obtain ⟨front, hpieces, hfront, -⟩ := pieces_behind base path
  rw [← hjoin] at hpieces
  rw [parts_eq, hlead, hpieces, List.filter_append, hfront, List.map_append, filter_parts hpath,
    parts_eq base, List.append_assoc]

/-- Behind a tilde and a slash come the parts of the rest. -/
theorem parts_tilde (rest : String) :
    parts ("~/" ++ rest) = .name "~" :: ((Disk.pieces rest).filter moves).map ofStep := by
  have hpieces : Disk.pieces ("~/" ++ rest) = "~" :: Disk.pieces rest := pieces_slash "~" rest
  have hlead : lead ("~/" ++ rest) = [] := by
    have hrel : isAbsolute ("~/" ++ rest) = false := isAbsolute_append (by decide) rest
    simp [lead, hrel, hpieces]
  rw [parts_eq, hlead, hpieces, List.filter_cons_of_pos (by decide)]
  rfl

end CodeSurvey.Path

namespace CodeSurvey.Disk

open CodeSurvey.Path (isAbsolute parts)

variable {home path : String} {d : Disk}

/-! ## Home -/

/-- The path starts at the home directory: it is a tilde, or a tilde and a slash come first. -/
def AtHome (path : String) : Prop := path = "~" ∨ "~/".toList <+: path.toList

/-- Another slash follows on the tilde and the slash. -/
def PastHome (path : String) : Prop := "~//".toList <+: path.toList

instance : DecidablePred AtHome := fun path =>
  inferInstanceAs (Decidable (path = "~" ∨ "~/".toList <+: path.toList))

instance : DecidablePred PastHome := fun path =>
  inferInstanceAs (Decidable ("~//".toList <+: path.toList))

theorem exists_rest {front path : String} (h : front.toList <+: path.toList) :
    ∃ rest, path = front ++ rest := by
  obtain ⟨rest, hrest⟩ := h
  refine ⟨String.ofList rest, ?_⟩
  rw [← String.toList_inj, String.toList_append, String.toList_ofList, hrest]

theorem pastHome_iff (rest : String) : PastHome ("~/" ++ rest) ↔ isAbsolute rest = true := by
  unfold PastHome isAbsolute
  cases h : rest.toList with
  | nil => simp [h]
  | cons c cs => simp [h, eq_comm]

theorem expandHome_other (h : ¬ AtHome path) (home : Option String) :
    expandHome home path = path := by
  unfold expandHome
  split
  · rename_i htilde
    exact absurd (.inl (String.toList_inj.1 htilde)) h
  · rename_i htilde
    exact absurd (.inr ⟨[], htilde.symm⟩) h
  · rename_i rest _ htilde
    exact absurd (.inr ⟨rest, htilde.symm⟩) h
  · rfl

theorem expandHome_slash (home : String) {rest : String} (h : rest ≠ "") :
    expandHome (some home) ("~/" ++ rest) = Path.join home rest := by
  have hlist : ("~/" ++ rest).toList = '~' :: '/' :: rest.toList := by simp
  obtain ⟨c, cs, hcs⟩ := List.exists_cons_of_ne_nil (l := rest.toList) (by simpa using h)
  unfold expandHome
  rw [hlist, hcs]
  show Path.join home (String.ofList (c :: cs)) = _
  rw [← hcs, String.ofList_toList]

theorem expandHome_isAbsolute (hhome : isAbsolute home = true) (h : AtHome path) :
    isAbsolute (expandHome (some home) path) = true := by
  rcases h with rfl | h
  · exact hhome
  · obtain ⟨rest, rfl⟩ := exists_rest h
    by_cases hrest : rest = ""
    · rw [hrest]
      exact hhome
    · rw [expandHome_slash home hrest]
      exact Path.isAbsolute_join hhome rest

/-- What comes behind the tilde comes behind the home directory, part by part. -/
theorem parts_expandHome (hhome : isAbsolute home = true) (h : AtHome path)
    (hpast : ¬ PastHome path) :
    parts (expandHome (some home) path) = parts home ++ (parts path).tail := by
  have htilde : parts home = parts home ++ (parts "~").tail := by
    rw [show (parts "~").tail = [] by decide, List.append_nil]
  rcases h with rfl | h
  · exact htilde
  · obtain ⟨rest, rfl⟩ := exists_rest h
    have hrel : isAbsolute rest = false := by simpa [pastHome_iff] using hpast
    by_cases hrest : rest = ""
    · rw [hrest]
      exact htilde
    · rw [expandHome_slash home hrest, Path.parts_behind hhome hrel, Path.filter_parts hrel,
        Path.parts_tilde, List.tail_cons]

/-- Where two slashes follow the tilde, all that comes behind the first one is the path. -/
theorem expandHome_past (home : String) (h : PastHome path) :
    path = "~/" ++ expandHome (some home) path := by
  obtain ⟨rest, rfl⟩ := exists_rest h
  have hslash : "~//" ++ rest = "~/" ++ ("/" ++ rest) := by
    rw [← String.append_assoc]
    rfl
  have habsolute : isAbsolute ("/" ++ rest) = true := Path.isAbsolute_append (by decide) rest
  rw [hslash, expandHome_slash home (Path.ne_empty_of_isAbsolute habsolute), Path.join,
    if_pos habsolute]

theorem PastHome.atHome (h : PastHome path) : AtHome path :=
  .inr ((List.prefix_append ['~', '/'] ['/']).trans h)

/-- Home is lost behind two slashes, and that shows unless home is the root. -/
theorem parts_past {full : String} (hhome : isAbsolute home = true)
    (hfull : isAbsolute full = true) :
    parts full = parts home ++ (parts ("~/" ++ full)).tail ↔ parts home = [.root] := by
  rw [Path.parts_tilde, Path.parts_of_isAbsolute hfull, Path.parts_of_isAbsolute hhome]
  simp

/-! ## Where a database is opened -/

theorem openDatabase_ok {home : Option String} {d' : Disk} {full : String}
    (h : openDatabase home path d = (.ok full, d')) : full = d.resolved home path := by
  unfold openDatabase at h
  obtain ⟨asked, e, hask, h⟩ := Command.of_andThen_ok h
  obtain ⟨-, e, -, h⟩ := Command.of_andThen_ok h
  obtain ⟨db, e, -, h⟩ := Command.of_andThen_ok h
  have hanswer : full = asked := by
    rcases happly : db.applySchema with ⟨f | ⟨⟩, db'⟩ <;> rw [happly] at h
    · cases h
    · obtain ⟨-, e, -, h⟩ := Command.of_andThen_ok h
      exact (Except.ok.inj (congrArg Prod.fst h)).symm
  rw [hanswer]
  exact (Except.ok.inj (congrArg Prod.fst hask)).symm

theorem pathOf_isAbsolute (names : List String) : isAbsolute (pathOf names) = true :=
  Path.isAbsolute_append (by decide) _

theorem resolved_other (h : ¬ AtHome path) (home : Option String) :
    d.resolved home path = Path.join (pathOf d.workingDirectory) path := by
  rw [resolved, expandHome_other h]

theorem resolved_home (hhome : isAbsolute home = true) (h : AtHome path) :
    d.resolved (some home) path = expandHome (some home) path :=
  if_pos (expandHome_isAbsolute hhome h)

/-- A database is opened where its path says. At home that is behind the home directory, part by
part, but where two slashes follow the tilde; from the root on it is the path itself; and
elsewhere, whatever tildes are in it, it is behind the directory where one works. -/
theorem opened_where_path_leads {d' : Disk} {full : String} (hhome : isAbsolute home = true)
    (hopen : openDatabase (some home) path d = (.ok full, d')) :
    isAbsolute full = true ∧
      (AtHome path → ¬ PastHome path → parts full = parts home ++ (parts path).tail) ∧
      (PastHome path → path = "~/" ++ full ∧
        (parts full = parts home ++ (parts path).tail ↔ parts home = [.root])) ∧
      (¬ AtHome path → isAbsolute path = true → full = path) ∧
      (¬ AtHome path → isAbsolute path = false → parts full =
        parts (pathOf d.workingDirectory) ++ (parts path).filter (· ≠ .here)) := by
  have hwork := pathOf_isAbsolute d.workingDirectory
  obtain rfl := openDatabase_ok hopen
  have habsolute : isAbsolute (d.resolved (some home) path) = true :=
    Path.isAbsolute_join hwork _
  refine ⟨habsolute, fun h hpast => ?_, fun hpast => ?_, fun h hpath => ?_, fun h hpath => ?_⟩
  · rw [resolved_home hhome h, parts_expandHome hhome h hpast]
  · rw [resolved_home hhome hpast.atHome] at habsolute ⊢
    have hpath := expandHome_past home hpast
    refine ⟨hpath, ?_⟩
    have hshown := parts_past hhome habsolute
    rwa [← hpath] at hshown
  · rw [resolved_other h, Path.join, if_pos hpath]
  · rw [resolved_other h, Path.parts_behind hwork hpath]

theorem opened_where_path_leads_at_home :
    isAbsolute "/home/u" = true ∧
      (openDatabase (some "/home/u") "~/a/.//~" .blank).1.toOption = some "/home/u/a/.//~" ∧
      parts "/home/u/a/.//~" = parts "/home/u" ++ (parts "~/a/.//~").tail := by
  have hok : (openDatabase (some "/home/u") "~/a/.//~" .blank).1.toOption =
      some "/home/u/a/.//~" := by decide +kernel
  refine ⟨by decide, hok, ?_⟩
  rcases hopen : openDatabase (some "/home/u") "~/a/.//~" .blank with ⟨f | full, d'⟩ <;>
    rw [hopen] at hok
  · cases hok
  · obtain rfl : full = _ := Option.some.inj hok
    exact (opened_where_path_leads (by decide) hopen).2.1 (by decide) (by decide)

/-- With two slashes behind the tilde a database is made in the root. -/
theorem opened_in_root_behind_two_slashes :
    AtHome "~//x.db" ∧
      (openDatabase (some "/home/u") "~//x.db" .blank).1.toOption = some "/x.db" ∧
      parts "/x.db" ≠ parts "/home/u" ++ (parts "~//x.db").tail ∧
      ¬ parts "/home/u" <+: parts "/x.db" := by
  decide +kernel

end CodeSurvey.Disk
