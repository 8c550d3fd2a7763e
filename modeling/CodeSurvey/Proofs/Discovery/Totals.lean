-- The totals of a discovery are those of its list of files: how many there are, how large they are
-- together, and how many there are of each language, the languages in the order in which the list
-- comes to them. The primary language is the one with the most files, of several the one that the
-- list comes to first.
import CodeSurvey.Discovery
import Mathlib.Algebra.GroupWithZero.Nat
import Mathlib.Data.List.Induction
import Mathlib.Data.List.Nodup
import Mathlib.Tactic.Common

namespace CodeSurvey

/-! ## Counts by language -/

/-- An item at the end is another one only if it does not stand before. -/
theorem eraseDups_snoc (ls : List String) (l : String) :
    (ls ++ [l]).eraseDups = if l ∈ ls then ls.eraseDups else ls.eraseDups ++ [l] := by
  rw [List.eraseDups_append, List.removeAll, List.filter_singleton]
  by_cases hl : l ∈ ls
  · simp [hl]
  · simp [hl, List.eraseDups_cons]

theorem nodup_eraseDups (ls : List String) : ls.eraseDups.Nodup := by
  induction ls using List.reverseRecOn with
  | nil => exact List.nodup_nil
  | append_singleton ls l ih =>
    rw [eraseDups_snoc]
    split
    · exact ih
    · rename_i hl
      exact List.nodup_append.2 ⟨ih, List.nodup_singleton l, fun a ha b hb => by
        rintro rfl
        exact hl (List.mem_eraseDups.1 (List.mem_singleton.1 hb ▸ ha))⟩

namespace Breakdown

/-- The count of each language of a list. -/
def ofCounts (languages : List String) (count : String → Nat) : Breakdown :=
  languages.map fun l => (l, UInt64.ofNat (count l))

theorem put_ofCounts {languages : List String} {count : String → Nat} (hn : languages.Nodup)
    (l : String) (n : Nat) : put l (UInt64.ofNat n) (ofCounts languages count) =
      ofCounts (if l ∈ languages then languages else languages ++ [l])
        (fun k => if k = l then n else count k) := by
  induction languages with
  | nil => simp [ofCounts, put]
  | cons k languages ih =>
    obtain ⟨hk, hn⟩ := List.nodup_cons.1 hn
    have ih := ih hn
    unfold ofCounts at ih ⊢
    rw [List.map_cons, put]
    by_cases hkl : k = l
    · subst hkl
      rw [if_pos rfl, if_pos List.mem_cons_self, List.map_cons]
      refine congrArg₂ List.cons (by simp) (List.map_congr_left fun i hi => ?_)
      have hik : i ≠ k := by
        rintro rfl
        exact hk hi
      simp [hik]
    · rw [if_neg hkl, ih]
      by_cases hl : l ∈ languages
      · simp [hl, hkl]
      · simp [hl, hkl, Ne.symm hkl]

theorem count_ofCounts {languages : List String} {count : String → Nat} (l : String) :
    Breakdown.count l (ofCounts languages count) =
      if l ∈ languages then UInt64.ofNat (count l) else 0 := by
  unfold Breakdown.count ofCounts
  induction languages with
  | nil => rfl
  | cons k languages ih =>
    rw [List.map_cons, List.find?_cons]
    by_cases hkl : k = l
    · simp [hkl]
    · simpa [hkl, Ne.symm hkl] using ih

/-- The breakdown to which the languages of files are added one after the other. -/
def ofLanguages (ls : List String) : Breakdown := ls.foldl (fun b l => b.add l) []

/-- Each language is there once, with the number of its files, and they stand in the order in which
they come first. -/
theorem ofLanguages_eq (ls : List String) : ofLanguages ls = ofCounts ls.eraseDups ls.count := by
  unfold ofLanguages
  induction ls using List.reverseRecOn with
  | nil => rfl
  | append_singleton ls l ih =>
    have hcount : Breakdown.count l (ofCounts ls.eraseDups ls.count) = UInt64.ofNat (ls.count l) := by
      rw [count_ofCounts]
      split
      · rfl
      · rename_i hl
        rw [List.count_eq_zero_of_not_mem fun hmem => hl (List.mem_eraseDups.2 hmem)]
        rfl
    have hone : UInt64.ofNat (ls.count l) + 1 = UInt64.ofNat (ls.count l + 1) := by
      rw [UInt64.ofNat_add]
      rfl
    rw [List.foldl_append, List.foldl_cons, List.foldl_nil, ih, add, hcount, hone,
      put_ofCounts (nodup_eraseDups ls), eraseDups_snoc]
    simp only [List.mem_eraseDups]
    congr 1
    funext k
    rw [List.count_append, List.count_singleton]
    by_cases hk : k = l
    · simp [hk]
    · simp [hk, Ne.symm hk]

theorem ofLanguages_cons {ls : List String} (hne : ls ≠ []) : ∃ e r, ofLanguages ls = e :: r := by
  rw [ofLanguages_eq]
  cases ls with
  | nil => exact absurd rfl hne
  | cons l ls => exact ⟨_, _, by rw [List.eraseDups_cons, ofCounts, List.map_cons]⟩

/-! ## The largest count -/

/-- The entry that is taken has more than all in front of it, and no less than all behind it. -/
theorem primary_split (e : String × UInt64) (r : Breakdown) :
    ∃ before best after, e :: r = before ++ best :: after ∧ primary (e :: r) = best.1 ∧
      (∀ x ∈ before, x.2 < best.2) ∧ ∀ x ∈ after, x.2 ≤ best.2 := by
  unfold primary
  suffices ∃ before after,
      e :: r = before ++ r.foldl (fun best x => if best.2 < x.2 then x else best) e :: after ∧
        (∀ x ∈ before, x.2 < (r.foldl (fun best x => if best.2 < x.2 then x else best) e).2) ∧
          ∀ x ∈ after, x.2 ≤ (r.foldl (fun best x => if best.2 < x.2 then x else best) e).2 by
    obtain ⟨before, after, hsplit, hbefore, hafter⟩ := this
    exact ⟨before, _, after, hsplit, rfl, hbefore, hafter⟩
  induction r using List.reverseRecOn with
  | nil => exact ⟨[], [], rfl, by simp, by simp⟩
  | append_singleton r x ih =>
    obtain ⟨before, after, hsplit, hbefore, hafter⟩ := ih
    rw [List.foldl_append, List.foldl_cons, List.foldl_nil, ← List.cons_append]
    generalize r.foldl (fun best x => if best.2 < x.2 then x else best) e = best at *
    rw [hsplit]
    by_cases hlt : best.2 < x.2
    · rw [if_pos hlt]
      refine ⟨before ++ best :: after, [], rfl, fun y hy => ?_, by simp⟩
      rcases List.mem_append.1 hy with hy | hy
      · exact UInt64.lt_trans (hbefore y hy) hlt
      · rcases List.mem_cons.1 hy with rfl | hy
        · exact hlt
        · exact UInt64.lt_of_le_of_lt (hafter y hy) hlt
    · rw [if_neg hlt]
      refine ⟨before, after ++ [x], by simp, hbefore, fun y hy => ?_⟩
      rcases List.mem_append.1 hy with hy | hy
      · exact hafter y hy
      · obtain rfl := List.mem_singleton.1 hy
        exact UInt64.not_lt.1 hlt

theorem primary_mem {ls : List String} (hne : ls ≠ []) : (ofLanguages ls).primary ∈ ls := by
  obtain ⟨e, r, hcons⟩ := ofLanguages_cons hne
  obtain ⟨before, best, after, hsplit, hprimary, -⟩ := primary_split e r
  have hbest : best ∈ ofLanguages ls := by rw [hcons, hsplit]; simp
  rw [ofLanguages_eq] at hbest
  obtain ⟨l, hl, rfl⟩ := List.mem_map.1 hbest
  rw [hcons, hprimary]
  exact List.mem_eraseDups.1 hl

/-- The primary language of files comes first at one of them: none that comes before it has as many
files, and none at all has more. -/
theorem primary_ofLanguages {ls : List String} (hne : ls ≠ []) (room : ls.length < UInt64.size) :
    ∃ before l after, ls = before ++ l :: after ∧ (ofLanguages ls).primary = l ∧
      (∀ k ∈ before, ls.count k < ls.count l) ∧ ∀ k ∈ after, ls.count k ≤ ls.count l := by
  have hcount : ∀ k, ls.count k < UInt64.size := fun k =>
    Nat.lt_of_le_of_lt List.count_le_length room
  obtain ⟨e, r, hcons⟩ := ofLanguages_cons hne
  obtain ⟨fewer, best, rest, hsplit, hprimary, hfewer, hrest⟩ := primary_split e r
  rw [← hcons, ofLanguages_eq, ofCounts, List.map_eq_append_iff] at hsplit
  obtain ⟨xs, zs, hxs, rfl, hzs⟩ := hsplit
  obtain ⟨l, ys, rfl, rfl, rfl⟩ := List.map_eq_cons_iff.1 hzs
  have hl : l ∈ ls := List.mem_eraseDups.1 (by rw [hxs]; simp)
  obtain ⟨before, after, hls, hfirst⟩ := List.eq_append_cons_of_mem hl
  -- the languages that come before are those that stand in front of it in the breakdown
  have hbefore : before.eraseDups = xs := by
    have hn := nodup_eraseDups ls
    rw [hxs, List.nodup_append] at hn
    have hnot : l ∉ xs := fun hmem => hn.2.2 l hmem l List.mem_cons_self rfl
    have heq := hxs
    rw [hls, List.eraseDups_append, List.removeAll, List.filter_cons_of_pos (by simpa using hfirst),
      List.eraseDups_cons] at heq
    exact (List.append_cons_inj_of_notMem (fun h => hfirst (List.mem_eraseDups.1 h))
      (fun h => by simpa using List.mem_eraseDups.1 h)).1 heq |>.1
  have hless : ∀ k ∈ before, ls.count k < ls.count l := by
    intro k hk
    have hlt := hfewer _ (List.mem_map_of_mem (hbefore ▸ List.mem_eraseDups.2 hk))
    exact (UInt64.ofNat_lt_iff_lt (hcount k) (hcount l)).1 hlt
  refine ⟨before, l, after, hls, by rw [hcons, hprimary], hless, fun k hk => ?_⟩
  have hmem : k ∈ xs ++ l :: ys := hxs ▸ List.mem_eraseDups.2 (by rw [hls]; simp [hk])
  rcases List.mem_append.1 hmem with hmem | hmem
  · exact Nat.le_of_lt (hless k (List.mem_eraseDups.1 (hbefore ▸ hmem)))
  · rcases List.mem_cons.1 hmem with rfl | hmem
    · exact Nat.le_refl _
    · exact (UInt64.ofNat_le_iff_le (hcount k) (hcount l)).1 (hrest _ (List.mem_map_of_mem hmem))

end Breakdown

/-- Of two languages with as many files the one is taken that comes first. -/
example : (Breakdown.ofLanguages ["css", "go", "python", "python", "go"]).primary = "go" := by
  decide

/-! ## Totals of files -/

/-- The totals are those of the whole list, in words of 64 bits. -/
theorem DiscoveryTotals.ofFiles_eq (files : List FoundFile) : ofFiles files =
    ⟨UInt64.ofNat files.length, UInt64.ofNat (files.map (·.size.toNat)).sum,
      .ofLanguages (files.map (·.language))⟩ := by
  unfold ofFiles Breakdown.ofLanguages
  induction files using List.reverseRecOn with
  | nil => rfl
  | append_singleton files f ih =>
    rw [List.foldl_append, List.foldl_cons, List.foldl_nil, ih, add]
    simp [UInt64.ofNat_add]

/-- The number of files of a language. -/
def Discovered.filesIn (found : Discovered) (language : String) : Nat :=
  found.files.countP (·.language = language)

theorem Discovered.filesIn_eq (found : Discovered) (language : String) :
    found.filesIn language = (found.files.map (·.language)).count language := by
  rw [filesIn, List.count, List.countP_map]
  rfl

/-- No language has the name that stands for none. -/
theorem languageOf?_ne_unknown (ext : String) : languageOf? ext ≠ some "unknown" := by
  have htable : ∀ e ∈ languageTable, e.2 ≠ "unknown" := by decide
  intro h
  obtain ⟨e, he, hunknown⟩ := Option.map_eq_some_iff.1 h
  exact htable e (List.mem_of_find?_eq_some he) hunknown

theorem language_of_foundFile? {largest : UInt64} {root : String} {names : List String}
    {c : Disk.Content} {f : FoundFile} (h : foundFile? largest root names c = some f) :
    f.language ≠ "unknown" := by
  unfold foundFile? at h
  dsimp only at h
  split at h
  · cases h
  · obtain ⟨language, hlanguage, rfl⟩ := Option.map_eq_some_iff.1 h
    rintro rfl
    exact languageOf?_ne_unknown _ hlanguage

/-- Files of known languages have the primary language `unknown` only when there are none. -/
theorem primary_eq_unknown_iff {files : List FoundFile} (h : ∀ f ∈ files, f.language ≠ "unknown") :
    (Breakdown.ofLanguages (files.map (·.language))).primary = "unknown" ↔ files = [] := by
  constructor
  · intro hunknown
    by_contra hne
    have hsome : files.map (·.language) ≠ [] := mt List.map_eq_nil_iff.1 hne
    have hmem := Breakdown.primary_mem hsome
    rw [hunknown] at hmem
    obtain ⟨f, hf, hlanguage⟩ := List.mem_map.1 hmem
    exact h f hf hlanguage
  · rintro rfl
    rfl

theorem Discovered.primary_split {found : Discovered} (hne : found.files ≠ [])
    (room : found.files.length < UInt64.size) : ∃ before f after,
      found.files = before ++ f :: after ∧
      (Breakdown.ofLanguages (found.files.map (·.language))).primary = f.language ∧
      (∀ g ∈ before, found.filesIn g.language < found.filesIn f.language) ∧
      ∀ g ∈ after, found.filesIn g.language ≤ found.filesIn f.language := by
  have hsome : found.files.map (·.language) ≠ [] := mt List.map_eq_nil_iff.1 hne
  obtain ⟨before, l, after, hsplit, hprimary, hbefore, hafter⟩ :=
    Breakdown.primary_ofLanguages hsome (by simpa using room)
  obtain ⟨fs, rest, hfiles, rfl, hrest⟩ := List.map_eq_append_iff.1 hsplit
  obtain ⟨f, gs, rfl, rfl, rfl⟩ := List.map_eq_cons_iff.1 hrest
  refine ⟨fs, f, gs, hfiles, hprimary, fun g hg => ?_, fun g hg => ?_⟩
  · rw [found.filesIn_eq, found.filesIn_eq]
    exact hbefore _ (List.mem_map_of_mem hg)
  · rw [found.filesIn_eq, found.filesIn_eq]
    exact hafter _ (List.mem_map_of_mem hg)

/-- The totals of a discovery are told by its list of files, which stand in the order of the walk:
their number, the sum of their sizes, and each of their languages once with the number of its files,
in the order in which they come first. The numbers are words of 64 bits; the number of files and the
sum of the sizes are the plain ones where a word holds them. The primary language is `unknown` when
there are no files; else it is that of a file, more files are of it than of each language that comes
before, and no fewer than of each that comes behind. -/
theorem totals_match_files {s : DiscoverySettings} {root : String} {d : Disk} {found : Discovered}
    (h : discover s root d = .ok found) :
    (∃ entries, d.entries root = .ok entries ∧ found.files =
      (filesAmong [] entries).filterMap fun e => foundFile? s.maxFileSize root e.1 e.2) ∧
    found.totals.files = UInt64.ofNat found.files.length ∧
    found.totals.size = UInt64.ofNat (found.files.map (·.size.toNat)).sum ∧
    (found.files.length < UInt64.size → found.totals.files.toNat = found.files.length) ∧
    ((found.files.map (·.size.toNat)).sum < UInt64.size →
      found.totals.size.toNat = (found.files.map (·.size.toNat)).sum) ∧
    found.totals.languages = (found.files.map (·.language)).eraseDups.map
      (fun l => (l, UInt64.ofNat (found.filesIn l))) ∧
    (found.totals.languages.primary = "unknown" ↔ found.files = []) ∧
    (found.files ≠ [] → found.files.length < UInt64.size → ∃ before f after,
      found.files = before ++ f :: after ∧ found.totals.languages.primary = f.language ∧
      (∀ g ∈ before, found.filesIn g.language < found.filesIn f.language) ∧
      ∀ g ∈ after, found.filesIn g.language ≤ found.filesIn f.language) := by
  obtain ⟨entries, hentries, rfl⟩ : ∃ entries, d.entries root = .ok entries ∧
      Discovered.ofEntries s root entries = found := by
    unfold discover at h
    split at h
    · exact ⟨_, ‹_›, Except.ok.inj h⟩
    · cases h
  generalize hfound : Discovered.ofEntries s root entries = found
  have htotals : found.totals = .ofFiles found.files := by
    rw [← hfound]
    rfl
  rw [htotals, DiscoveryTotals.ofFiles_eq]
  refine ⟨⟨entries, hentries, hfound ▸ rfl⟩, rfl, rfl, UInt64.toNat_ofNat_of_lt',
    UInt64.toNat_ofNat_of_lt', ?_, ?_, Discovered.primary_split⟩
  · rw [Breakdown.ofLanguages_eq, Breakdown.ofCounts]
    exact List.map_congr_left fun l _ => by rw [found.filesIn_eq]
  · refine primary_eq_unknown_iff fun f hf => ?_
    rw [← hfound] at hf
    obtain ⟨e, -, he⟩ := List.mem_filterMap.1 hf
    exact language_of_foundFile? he

namespace Mixed

def text : Disk.Content := .bytes "x".toUTF8

/-- As many files of one language as of another, which begins in a directory. -/
def disk : Disk := ⟨.directory [("a", .directory [("x.go", .file text)]), ("b.py", .file text),
  ("c.css", .file text), ("d.py", .file text), ("e.go", .file text)], []⟩

/-- What is found on the disk. -/
def found : Discovered :=
  ⟨[⟨"/a/x.go", "a/x.go", "go", 1, "go"⟩, ⟨"/b.py", "b.py", "python", 1, "py"⟩,
    ⟨"/c.css", "c.css", "css", 1, "css"⟩, ⟨"/d.py", "d.py", "python", 1, "py"⟩,
    ⟨"/e.go", "e.go", "go", 1, "go"⟩], ⟨5, 5, [("go", 2), ("python", 2), ("css", 1)]⟩⟩

theorem discover_disk : discover ⟨1⟩ "/" disk = .ok found := by
  decide +kernel

end Mixed

/-- Of the languages with two files the primary one is that of the file in the directory. -/
theorem totals_match_files_of_mixed :
    discover ⟨1⟩ "/" Mixed.disk = .ok Mixed.found ∧ Mixed.found.files ≠ [] ∧
      Mixed.found.files.length < UInt64.size ∧
      Mixed.found.totals.files = UInt64.ofNat Mixed.found.files.length ∧
      Mixed.found.totals.size = UInt64.ofNat (Mixed.found.files.map (·.size.toNat)).sum ∧
      (Mixed.found.files.map (·.size.toNat)).sum < UInt64.size ∧
      Mixed.found.totals.files.toNat = Mixed.found.files.length ∧
      Mixed.found.totals.size.toNat = (Mixed.found.files.map (·.size.toNat)).sum ∧
      Mixed.found.totals.languages = (Mixed.found.files.map (·.language)).eraseDups.map
        (fun l => (l, UInt64.ofNat (Mixed.found.filesIn l))) ∧
      (∃ before f after, Mixed.found.files = before ++ f :: after ∧
        Mixed.found.totals.languages.primary = f.language ∧
        (∀ g ∈ before, Mixed.found.filesIn g.language < Mixed.found.filesIn f.language) ∧
        ∀ g ∈ after, Mixed.found.filesIn g.language ≤ Mixed.found.filesIn f.language) ∧
      Mixed.found.totals.languages.primary = "go" := by
  have hsome : Mixed.found.files ≠ [] := by simp [Mixed.found]
  have hroom : Mixed.found.files.length < UInt64.size := by decide
  have hsmall : (Mixed.found.files.map (·.size.toNat)).sum < UInt64.size := by decide
  obtain ⟨-, hfiles, hsize, hnumber, hsum, hlanguages, -, hprimary⟩ :=
    totals_match_files Mixed.discover_disk
  exact ⟨Mixed.discover_disk, hsome, hroom, hfiles, hsize, hsmall, hnumber hroom, hsum hsmall,
    hlanguages, hprimary hsome hroom, by decide⟩

end CodeSurvey
