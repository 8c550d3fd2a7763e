-- What holds of both surveys that go by lines, that of Python and that of Go. Read by indices and
-- offsets they never give a fault; and the facts that they tell of have lines of the text, each
-- beginning below the one before, so that all are kept when they are stored.
import CodeSurvey.Analysis
import CodeSurvey.Proofs.Go.ByOffset
import CodeSurvey.Proofs.Python.ByOffset
import CodeSurvey.Proofs.Python.Nesting
import CodeSurvey.Proofs.Text.Lines

namespace CodeSurvey

open Text

/-! ## No faults -/

/-- Of any text, the surveys of Python and of Go by indices and byte offsets never give a fault: no
slice has its ends out of order, past the text or inside a character, no index is out of its list,
and no turn fails to get further. They always end, and give the surveys that go by characters. -/
theorem line_surveys_never_fault (docs : Bool) (source : String) :
    Python.surveyByOffset docs source = .ok (Python.survey docs source) ∧
      Go.surveyByOffset docs source = .ok (Go.survey docs source) :=
  ⟨Python.surveyByOffset_eq docs source, Go.surveyByOffset_eq docs source⟩

/-! ## Line numbers -/

/-- Below the bound of line numbers a line has the number that it is counted with. -/
theorem toNat_lineNumber {before : Nat} (h : before + 1 < UInt32.size) :
    (lineNumber before).toNat = before + 1 := by
  unfold lineNumber
  exact UInt32.toNat_ofNat_of_lt' h

/-- The facts have lines of the text, and each begins below the one before. -/
structure LinesFit (source : String) (facts : List Fact) : Prop where
  within : ∀ f ∈ facts, 1 ≤ f.startLine.toNat ∧ f.startLine.toNat ≤ f.endLine.toNat ∧
    f.endLine.toNat ≤ lineCount source.toList
  rising : facts.Pairwise fun a b => a.startLine.toNat < b.startLine.toNat
  kept : Analyzer.factsWithin (UInt32.ofNat (lineCount source.toList)) facts = facts

/-- Facts with lines of the text are all kept. -/
theorem factsWithin_eq_self {facts : List Fact} {count : Nat} (hcount : count < UInt32.size)
    (h : ∀ f ∈ facts, 1 ≤ f.startLine.toNat ∧ f.startLine.toNat ≤ f.endLine.toNat ∧
      f.endLine.toNat ≤ count) :
    Analyzer.factsWithin (UInt32.ofNat count) facts = facts := by
  unfold Analyzer.factsWithin
  rw [List.filter_eq_self]
  intro f hf
  obtain ⟨hfirst, hordered, hlast⟩ := h f hf
  have htoNat : (UInt32.ofNat count).toNat = count := UInt32.toNat_ofNat_of_lt' hcount
  unfold Analyzer.isWithin
  simp only [Bool.and_eq_true, decide_eq_true_eq, UInt32.le_iff_toNat_le, htoNat]
  exact ⟨⟨hfirst, hordered⟩, hlast⟩

/-- When the facts are those of items in order, each with a first and a last line of the text, then
the lines of the facts fit. -/
theorem linesFit_of_items {ι : Type} {source : String} {items : List ι} {before last : ι → Nat}
    {fact : ι → Fact} (hcount : lineCount source.toList < UInt32.size)
    (hlines : ∀ i ∈ items, before i ≤ last i ∧ last i < (lines source.toList).length ∧
      (fact i).startLine = lineNumber (before i) ∧ (fact i).endLine = lineNumber (last i))
    (hordered : items.Pairwise fun i j => before i < before j) :
    LinesFit source (items.map fact) := by
  rw [length_lines] at hlines
  have htoNat : ∀ i ∈ items, (fact i).startLine.toNat = before i + 1 ∧
      (fact i).endLine.toNat = last i + 1 := by
    intro i hi
    obtain ⟨hle, hlt, hstart, hend⟩ := hlines i hi
    rw [hstart, hend, toNat_lineNumber (by omega), toNat_lineNumber (by omega)]
    exact ⟨rfl, rfl⟩
  have hwithin : ∀ f ∈ items.map fact, 1 ≤ f.startLine.toNat ∧
      f.startLine.toNat ≤ f.endLine.toNat ∧ f.endLine.toNat ≤ lineCount source.toList := by
    intro f hf
    obtain ⟨i, hi, rfl⟩ := List.mem_map.1 hf
    obtain ⟨hle, hlt, -⟩ := hlines i hi
    obtain ⟨hstart, hend⟩ := htoNat i hi
    omega
  refine ⟨hwithin, ?_, factsWithin_eq_self hcount hwithin⟩
  rw [List.pairwise_map]
  apply hordered.imp_of_mem
  intro i j hi hj hlt
  rw [(htoNat i hi).1, (htoNat j hj).1]
  omega

/-! ## The surveys of lines -/

theorem Python.linesFit_survey (docs : Bool) {source : String}
    (h : lineCount source.toList < UInt32.size) : LinesFit source (Python.survey docs source).facts := by
  rw [Python.facts_survey]
  apply linesFit_of_items h _ (Python.pairwise_declarations docs source)
  · exact (·.last)
  intro d hd
  obtain ⟨p, hp, hfound⟩ := List.mem_filterMap.1 hd
  have hstands := Python.stands_of_found (Python.drop_of_mem_stopsOf hp) hfound
  exact ⟨hstands.ordered, hstands.within, hstands.startLine, hstands.endLine⟩

theorem Go.linesFit_survey (docs : Bool) {source : String}
    (h : lineCount source.toList < UInt32.size) : LinesFit source (Go.survey docs source).facts := by
  -- The facts are taken with the stops that tell of them.
  let told (p : Go.Stop) : Option (Go.Stop × Fact) := (p.fact? docs).map (p, ·)
  have hfacts : (Go.survey docs source).facts =
      ((Go.stopsOf source).filterMap told).map Prod.snd := by
    rw [Go.facts_survey, List.map_filterMap]
    apply List.filterMap_congr
    intro p _
    simp [told, Function.comp_def]
  have htold : ∀ {p q : Go.Stop} {f : Fact}, told p = some (q, f) → q = p ∧ p.fact? docs = some f := by
    intro p q f hp
    obtain ⟨g, hg, heq⟩ := Option.map_eq_some_iff.1 hp
    obtain ⟨rfl, rfl⟩ := Prod.mk.inj heq
    exact ⟨rfl, hg⟩
  rw [hfacts]
  let first (i : Go.Stop × Fact) : Nat := i.1.before
  let last (i : Go.Stop × Fact) : Nat := i.1.before + i.1.extra
  apply @linesFit_of_items _ source _ first last _ h
  · rintro ⟨q, f⟩ hmem
    obtain ⟨p, hp, hsome⟩ := List.mem_filterMap.1 hmem
    obtain ⟨rfl, hfact⟩ := htold hsome
    obtain ⟨hstart, hend⟩ := Go.Stop.lines_fact hfact
    have hlength := congrArg List.length (Go.drop_of_mem_stopsOf hp)
    have hextra := q.extra_le
    rw [List.length_drop, List.length_cons] at hlength
    refine ⟨Nat.le_add_right _ _, ?_, hstart, hend⟩
    change q.before + q.extra < _
    omega
  · apply (Go.pairwise_stops 0 [] false _).filterMap
    rintro p q hlt ⟨p', f⟩ hp ⟨q', g⟩ hq
    obtain ⟨rfl, -⟩ := htold hp
    obtain ⟨rfl, -⟩ := htold hq
    exact hlt

/-- Of a text with fewer lines than there are line numbers, the survey of Python and that of Go tell
of facts with lines of the text, each below the one before, so that none is left out when they are
stored. -/
theorem line_surveys_fit (docs : Bool) {source : String} (h : lineCount source.toList < UInt32.size) :
    LinesFit source (Python.survey docs source).facts ∧
      LinesFit source (Go.survey docs source).facts :=
  ⟨Python.linesFit_survey docs h, Go.linesFit_survey docs h⟩

namespace Unfinished

/-- A class and a method whose header has two lines, then a function of Go that is not closed; the
last line has no line feed. -/
def source : String :=
  "class A:\r\n  def f(self,\r\n    x):\r\n\r\n    pass\r\ntype T struct \x7b\r\nfunc f() \x7b\r\n  if x \x7b"

end Unfinished

/-- The open braces of the last function reach to the end of the text. -/
theorem line_surveys_fit_of_unfinished : lineCount Unfinished.source.toList < UInt32.size ∧
    LinesFit Unfinished.source (Python.survey true Unfinished.source).facts ∧
    LinesFit Unfinished.source (Go.survey true Unfinished.source).facts ∧
    (Python.survey true Unfinished.source).facts.map (fun f => (f.name, f.startLine, f.endLine)) =
      [("A", 1, 5), ("A.f", 2, 5)] ∧
    (Go.survey true Unfinished.source).facts.map (fun f => (f.name, f.startLine, f.endLine)) =
      [("T", 6, 8), ("f", 7, 8)] := by
  have hcount : lineCount Unfinished.source.toList < UInt32.size := by decide +kernel
  obtain ⟨hpython, hgo⟩ := line_surveys_fit true hcount
  exact ⟨hcount, hpython, hgo, by decide +kernel, by decide +kernel⟩

end CodeSurvey
