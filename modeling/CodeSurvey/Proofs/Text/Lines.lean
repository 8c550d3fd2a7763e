-- The lines of a text: as many as are counted, none with a line feed in it, and
-- those of two texts one after the other when the first ends with its line.
import CodeSurvey.Text.Lines
import CodeSurvey.Proofs.Text.Pieces

namespace CodeSurvey.Text

/-- The lines of two texts when a line feed ends the first. -/
theorem lines_append_newline (s t : List Char) :
    lines (s ++ '\n' :: t) = (s.splitOn '\n').map dropReturn ++ lines t := by
  have hne : t.splitOn '\n' ≠ [] := List.splitOn_ne_nil '\n' t
  simp only [lines, List.splitOn_append_cons_self]
  rw [List.dropLast_append_of_ne_nil hne, List.map_append, List.getLast?_append,
    List.getLast?_eq_some_getLast hne, Option.some_or, List.append_assoc]

theorem lines_newline (s : List Char) :
    lines (s ++ ['\n']) = (s.splitOn '\n').map dropReturn := by
  rw [lines_append_newline]
  exact List.append_nil _

/-- A text that is empty or ends with its line has its lines before those of the next. -/
theorem lines_append {s : List Char} (h : s = [] ∨ s.getLast? = some '\n') (t : List Char) :
    lines (s ++ t) = lines s ++ lines t := by
  rcases h with rfl | h
  · rfl
  · obtain ⟨s, rfl⟩ := List.getLast?_eq_some_iff.1 h
    rw [List.append_assoc, List.singleton_append, lines_append_newline, lines_newline]

theorem newline_not_mem_lines {s line : List Char} (h : line ∈ lines s) : '\n' ∉ line := by
  rcases List.mem_append.1 h with h | h
  · obtain ⟨piece, hpiece, rfl⟩ := List.mem_map.1 h
    have hnot := (mem_splitOn (List.dropLast_subset _ hpiece)).1
    unfold dropReturn
    split
    · exact fun hmem => hnot (List.dropLast_subset _ hmem)
    · exact hnot
  · obtain ⟨hlast, -⟩ := Option.filter_eq_some_iff.1 (Option.mem_toList.1 h)
    exact (mem_splitOn (List.mem_of_getLast? hlast)).1

theorem lineCount_append_newline (s t : List Char) :
    lineCount (s ++ '\n' :: t) = s.count '\n' + 1 + lineCount t := by
  have hne : (s ++ '\n' :: t).isEmpty = false := by simp
  cases t with
  | nil => simp [lineCount]
  | cons c t =>
    have hlast : (s ++ '\n' :: c :: t).getLast? = (c :: t).getLast? := by
      rw [List.getLast?_append, List.getLast?_cons_cons, List.getLast?_eq_some_getLast
        (List.cons_ne_nil c t), Option.some_or]
    simp only [lineCount, hne, hlast, List.isEmpty_cons, List.count_append, List.count_cons_self]
    split
    · exact absurd ‹_› Bool.false_ne_true
    · split <;> omega

/-- The lines are as many as are counted. -/
theorem length_lines (s : List Char) : (lines s).length = lineCount s := by
  by_cases hmem : '\n' ∈ s
  · obtain ⟨a, t, rfl⟩ := List.append_of_mem hmem
    rw [lines_append_newline, lineCount_append_newline, List.length_append, List.length_map,
      length_splitOn, length_lines t]
  · have hlast : s.getLast? ≠ some '\n' := fun h => hmem (List.mem_of_getLast? h)
    rw [lines, List.splitOn_eq_singleton hmem, lineCount, if_neg hlast, List.count_eq_zero.2 hmem]
    cases s <;> simp
termination_by s.length
decreasing_by
  subst_vars
  rw [List.length_append, List.length_cons]
  omega

/-- What the joined lines begin with, up to a line feed, the first line begins with. -/
theorem prefix_of_joined {line a b : List Char} {rest : List (List Char)}
    (h : ['\n'].intercalate (line :: rest) = a ++ b) (ha : '\n' ∉ a) :
    ∃ more, line = a ++ more := by
  cases rest with
  | nil => exact ⟨b, by simpa using h⟩
  | cons next rest =>
    rw [List.intercalate_cons_cons, List.append_assoc] at h
    rcases List.append_eq_append_iff.1 h with ⟨c, rfl, hc⟩ | ⟨c, hline, -⟩
    · cases c with
      | nil => exact ⟨[], by simp⟩
      | cons x c =>
        obtain rfl : '\n' = x := (List.cons.inj hc).1
        simp at ha
    · exact ⟨c, hline⟩

/-- The joined lines after the first, when the first line feed ends it. -/
theorem rest_of_joined {line a b : List Char} {rest : List (List Char)} (hline : '\n' ∉ line)
    (h : ['\n'].intercalate (line :: rest) = a ++ '\n' :: b) (ha : '\n' ∉ a) :
    line = a ∧ rest ≠ [] ∧ ['\n'].intercalate rest = b := by
  cases rest with
  | nil =>
    rw [List.intercalate_singleton] at h
    simp [h] at hline
  | cons next rest =>
    rw [List.intercalate_cons_cons, List.append_assoc, List.singleton_append] at h
    -- Of the two beginnings neither goes on over the line feed after the other.
    have hnil : ∀ {c u v : List Char}, '\n' :: u = c ++ v → '\n' ∉ c → c = [] := by
      intro c u v hc hmem
      cases c with
      | nil => rfl
      | cons x c => exact absurd ((List.cons.inj hc).1 ▸ List.mem_cons_self) hmem
    rcases List.append_eq_append_iff.1 h with ⟨c, rfl, hc⟩ | ⟨c, rfl, hc⟩
    · obtain rfl := hnil hc fun hmem => ha (List.mem_append_right _ hmem)
      exact ⟨(List.append_nil _).symm, List.cons_ne_nil _ _, (List.cons.inj hc).2⟩
    · obtain rfl := hnil hc fun hmem => hline (List.mem_append_right _ hmem)
      exact ⟨List.append_nil _, List.cons_ne_nil _ _, (List.cons.inj hc).2.symm⟩

end CodeSurvey.Text
