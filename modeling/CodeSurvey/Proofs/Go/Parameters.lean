-- The parameters of a Go function as they are written: names that share a type, group after
-- group. The survey finds them all, each with the type of its group, exactly when no arrow of a
-- channel stands in the type of a group before the last.
import CodeSurvey.Proofs.Go.ByOffset
import CodeSurvey.Proofs.Go.Heading
import CodeSurvey.Proofs.Go.Type
import CodeSurvey.Proofs.Survey.Facts

namespace CodeSurvey.Go

open Text

/-! ## Texts that the reader passes over -/

/-- The reader of brackets, outside of quotes. -/
def atDepth (depth : Nat) : Nesting := ⟨none, false, depth⟩

/-- The reader goes from one place to another over the text and meets no comma that cuts. -/
def Passes (n n' : Nesting) (s : List Char) : Prop :=
  ∀ t, partsFrom ',' n (s ++ t) = (s ++ (partsFrom ',' n' t).1, (partsFrom ',' n' t).2)

namespace Passes

variable {n n' n'' : Nesting} {s t : List Char} {depth : Nat}

theorem nil : Passes n n [] := fun _ => rfl

theorem append (hs : Passes n n' s) (ht : Passes n' n'' t) : Passes n n'' (s ++ t) := by
  intro u
  rw [List.append_assoc, hs, ht, List.append_assoc]

theorem singleton {c : Char} (h : n.cutsAt ',' c = false) : Passes n (n.next c) [c] := fun _ =>
  partsFrom_cons_keep h

theorem of_ne {c : Char} (h : c ≠ ',') : Passes n (n.next c) [c] :=
  singleton (by simp [Nesting.cutsAt, h])

theorem of_plain (h : ∀ c ∈ s, isMark c = false ∧ c ≠ ',') :
    Passes (atDepth depth) (atDepth depth) s := by
  induction s with
  | nil => exact nil
  | cons c s ih =>
    obtain ⟨⟨hmark, hcomma⟩, hs⟩ := List.forall_mem_cons.1 h
    have hc := of_ne (n := atDepth depth) hcomma
    rw [Nesting.next_of_not_mark rfl hmark] at hc
    exact hc.append (ih hs)

/-- In brackets a comma does not cut. -/
theorem comma (h : depth ≠ 0) : Passes (atDepth depth) (atDepth depth) [','] :=
  singleton (by
    have hdeep : (depth == 0) = false := beq_false_of_ne h
    simp [Nesting.cutsAt, atDepth, hdeep])

theorem of_allBlank (h : allBlank s = true) : Passes (atDepth depth) (atDepth depth) s :=
  of_plain fun c hc => (plain_of_kind (allBlank_iff.1 h c hc) [','] (by decide)).imp_right
    (List.ne_of_not_mem_cons ·)

theorem of_isWordChar (h : ∀ c ∈ s, isWordChar c = true) :
    Passes (atDepth depth) (atDepth depth) s :=
  of_plain fun c hc => (plain_of_kind (h c hc) [','] (by decide +kernel)).imp_right
    (List.ne_of_not_mem_cons ·)

theorem plain_sign {c : Char} (h : c ∈ signs) : isMark c = false ∧ c ≠ ',' := by
  have hmark : signs.any isMark = false := by decide
  refine ⟨Bool.eq_false_iff.2 (List.any_eq_false.1 hmark c h), ?_⟩
  rintro rfl
  revert h
  decide

/-- Between its marks the reader stays in a quote. -/
theorem of_isEscaped {mark : Char} (h : isEscaped mark s = true) :
    Passes ⟨some mark, false, depth⟩ ⟨some mark, false, depth⟩ s := by
  have hin : ∀ {e : Bool} (c : Char), Nesting.cutsAt ⟨some mark, e, depth⟩ ',' c = false :=
    fun _ => rfl
  fun_induction isEscaped mark s with
  | case1 => exact nil
  | case2 c r ih =>
    have hback := singleton (hin (e := false) '\\')
    have hnext := singleton (hin (e := true) c)
    exact hback.append (hnext.append (ih h))
  | case3 c r hpair ih =>
    simp only [Bool.and_eq_true, decide_eq_true_eq] at h
    obtain ⟨⟨hback, hmark⟩, h⟩ := h
    have hc := singleton (hin (e := false) c)
    have hnext : Nesting.next ⟨some mark, false, depth⟩ c = ⟨some mark, false, depth⟩ := by
      simp [Nesting.next, hback, hmark]
    rw [hnext] at hc
    exact hc.append (ih h)

theorem of_literal {l : Literal} (h : isEscaped l.quoting.mark l.text = true) :
    Passes (atDepth depth) (atDepth depth) l.write := by
  have hmark : isQuoteMark l.quoting.mark = true ∧ l.quoting.mark ≠ '\\' ∧ l.quoting.mark ≠ ',' := by
    cases l.quoting <;> decide
  have hopen := of_ne (n := atDepth depth) hmark.2.2
  have hclose := of_ne (n := ⟨some l.quoting.mark, false, depth⟩) hmark.2.2
  have hin : (atDepth depth).next l.quoting.mark = ⟨some l.quoting.mark, false, depth⟩ := by
    simp [Nesting.next, atDepth, hmark]
  have hout : Nesting.next ⟨some l.quoting.mark, false, depth⟩ l.quoting.mark = atDepth depth := by
    simp [Nesting.next, atDepth, hmark]
  rw [hin] at hopen
  rw [hout] at hclose
  exact hopen.append ((of_isEscaped h).append hclose)

/-- The reader goes over a token to the depth behind it. -/
theorem of_level? {x : Token} {depth' : Nat} (h : x.level? depth = some depth') :
    Passes (atDepth depth) (atDepth depth') x.write := by
  cases x with
  | word w =>
    obtain rfl := Option.some.inj h
    exact of_isWordChar (List.all_eq_true.1 w.isWord)
  | opening b =>
    obtain rfl := Option.some.inj h
    have hb : b.opening ≠ ',' ∧ (atDepth depth).next b.opening = atDepth (depth + 1) := by
      cases b <;> exact ⟨by decide, rfl⟩
    exact hb.2 ▸ of_ne hb.1
  | closing b =>
    rw [Token.level?] at h
    split at h
    · cases h
    · obtain rfl := Option.some.inj h
      have hb : b.closing ≠ ',' ∧ (atDepth depth).next b.closing = atDepth (depth - 1) := by
        cases b <;> exact ⟨by decide, rfl⟩
      exact hb.2 ▸ of_ne hb.1
  | comma =>
    rw [Token.level?] at h
    split at h
    · cases h
    · obtain rfl := Option.some.inj h
      exact comma ‹_›
  | sign c hc =>
    obtain rfl := Option.some.inj h
    exact of_plain (List.forall_mem_singleton.2 (plain_sign hc))
  | arrow =>
    obtain rfl := Option.some.inj h
    have hopen := of_ne (n := atDepth depth) (c := '<') (by decide)
    exact hopen.append (of_plain (List.forall_mem_singleton.2 (plain_sign (by decide))))
  | dots =>
    obtain rfl := Option.some.inj h
    exact of_plain fun c hc => by
      rw [List.eq_of_mem_replicate (n := 3) hc]
      exact plain_sign (by decide)
  | literal l hl =>
    obtain rfl := Option.some.inj h
    exact of_literal hl

end Passes

/-! ## Texts of types -/

/-- Tokens with blanks behind each. -/
def spelled (items : List (Token × List Char)) : List Char := items.flatMap fun i => i.1.write ++ i.2

theorem passes_spelled {items : List (Token × List Char)} (hblank : ∀ i ∈ items, allBlank i.2 = true)
    {depth depth' : Nat} (h : (items.map Prod.fst).foldlM Token.level? depth = some depth') :
    Passes (atDepth depth) (atDepth depth') (spelled items) := by
  induction items generalizing depth with
  | nil =>
    obtain rfl := Option.some.inj h
    exact .nil
  | cons i items ih =>
    obtain ⟨hi, hblank⟩ := List.forall_mem_cons.1 hblank
    rw [List.map_cons, List.foldlM_cons] at h
    obtain ⟨next, hnext, h⟩ := Option.bind_eq_some_iff.1 h
    exact ((Passes.of_level? hnext).append (.of_allBlank hi)).append (ih hblank h)

/-! ## Cutting -/

/-- The text leaves the reader `k` further down, at whatever depth it comes. -/
def Deepens (k : Nat) (s : List Char) : Prop :=
  ∀ depth, Passes (atDepth depth) (atDepth (depth + k)) s

/-- Within brackets nothing is cut. -/
theorem partsFrom_intercalate {texts : List (List Char × Nat)} (h : ∀ p ∈ texts, Deepens p.2 p.1)
    {depth : Nat} (hdepth : 0 < depth) :
    (partsFrom ',' (atDepth depth) ([','].intercalate (texts.map Prod.fst))).2 = [] := by
  induction texts generalizing depth with
  | nil => rfl
  | cons p texts ih =>
    obtain ⟨hp, htexts⟩ := List.forall_mem_cons.1 h
    cases texts with
    | nil =>
      have := hp depth []
      rw [List.append_nil] at this
      rw [List.map_cons, List.map_nil, List.intercalate_singleton, this]
      rfl
    | cons q texts =>
      have hne : depth + p.2 ≠ 0 := by omega
      have hcomma := Passes.comma hne
      rw [List.map_cons, List.map_cons, List.intercalate_cons_cons, ((hp depth).append hcomma) _]
      exact ih htexts (by omega)

/-- Texts joined by commas are cut apart again as long as they leave the reader where it was; from
the first on that does not, they stay together. -/
theorem splitOutside_intercalate_of_deepens {texts : List (List Char × Nat)} (hne : texts ≠ [])
    (h : ∀ p ∈ texts, Deepens p.2 p.1) :
    if ∀ p ∈ texts.dropLast, p.2 = 0 then
      splitOutside ',' ([','].intercalate (texts.map Prod.fst)) = texts.map Prod.fst
    else (splitOutside ',' ([','].intercalate (texts.map Prod.fst))).length < texts.length := by
  induction texts with
  | nil => exact absurd rfl hne
  | cons p texts ih =>
    obtain ⟨hp, htexts⟩ := List.forall_mem_cons.1 h
    have hpass := hp 0
    rw [Nat.zero_add] at hpass
    cases texts with
    | nil =>
      have hsplit : partsFrom ',' .outside p.1 = (p.1, []) := by
        have := hpass []
        rw [List.append_nil] at this
        exact this.trans (by rw [partsFrom, List.append_nil])
      rw [if_pos (by simp), List.map_singleton, List.intercalate_singleton, splitOutside_eq, hsplit]
    | cons q texts =>
      let more := [','].intercalate ((q :: texts).map Prod.fst)
      have hjoined : [','].intercalate ((p :: q :: texts).map Prod.fst) = p.1 ++ ',' :: more := by
        rw [List.map_cons, List.map_cons, List.intercalate_cons_cons, List.append_assoc]
        rfl
      by_cases hzero : p.2 = 0
      -- A comma cuts where no bracket is open, and so long as that is so all of them do.
      · have hcut : (atDepth p.2).cutsAt ',' ',' = true := by rw [hzero]; rfl
        have hafter : (atDepth p.2).next ',' = .outside := by rw [hzero]; rfl
        have ih := ih (List.cons_ne_nil _ _) htexts
        have hsplit : splitOutside ',' (p.1 ++ ',' :: more) = p.1 :: splitOutside ',' more := by
          rw [splitOutside_eq, show Nesting.outside = atDepth 0 from rfl, hpass,
            partsFrom_cons_cut hcut, hafter, List.append_nil]
          rfl
        rw [hjoined, hsplit]
        split at ih
        · rename_i hall
          rw [if_pos (by simpa [hzero] using hall), ih]
          rfl
        · rename_i hsome
          rw [if_neg (by simpa [hzero] using hsome)]
          exact Nat.succ_lt_succ ih
      · have hnone := partsFrom_intercalate htexts (Nat.pos_of_ne_zero hzero)
        have hsplit : (partsFrom ',' (atDepth 0) (p.1 ++ ',' :: more)).2 = [] := by
          rw [← List.singleton_append, ← List.append_assoc, (hpass.append (.comma hzero)) more]
          exact hnone
        rw [if_neg (by simp [hzero]), hjoined, splitOutside_eq]
        change ((partsFrom ',' (atDepth 0) (p.1 ++ ',' :: more)).1 ::
          (partsFrom ',' (atDepth 0) (p.1 ++ ',' :: more)).2).length < _
        rw [hsplit]
        simp

/-! ## Written groups -/

/-- A name with the blanks around it. -/
structure WrittenName where
  before : List Char
  name : List Char
  after : List Char
  blank_before : allBlank before = true
  blank_after : allBlank after = true
  isIdentifier : IsIdentifier name

def WrittenName.write (n : WrittenName) : List Char := n.before ++ n.name ++ n.after

/-- Names that share a type. Behind the last of them stand blanks and then the type, perhaps with
three dots in front of it. -/
structure WrittenGroup where
  others : List WrittenName
  last : WrittenName
  /-- The tokens of the type, with the blanks behind each. -/
  items : List (Token × List Char)
  apart : last.after ≠ []
  blank : ∀ i ∈ items, allBlank i.2 = true
  isEntry : ∃ ts, IsPhrase .type ts ∧ (items.map Prod.fst = ts ∨ items.map Prod.fst = .dots :: ts)

namespace WrittenGroup

def tokens (g : WrittenGroup) : List Token := g.items.map Prod.fst

/-- What stands between commas, with the number of arrows in it. -/
def texts (g : WrittenGroup) : List (List Char × Nat) :=
  g.others.map (fun n => (n.write, 0)) ++ [(g.last.write ++ spelled g.items, g.tokens.count .arrow)]

/-- Each name is a parameter of the type, which is written with even spaces. -/
def told (g : WrittenGroup) : List Parameter :=
  (g.others ++ [g.last]).map fun n =>
    { Parameter.called (String.ofList n.name) with
      writtenType := some (String.ofList (singleSpaced (spelled g.items))) }

end WrittenGroup

/-- The groups with commas between all names. -/
def writtenParameters (groups : List WrittenGroup) : List Char :=
  [','].intercalate ((groups.flatMap (·.texts)).map Prod.fst)

/-! ## Reading a name and a type -/

namespace Token

theorem head?_write {x : Token} (h : x.begins = true) :
    ∀ c ∈ x.write.head?, isBlank c = false ∧ c ≠ '-' ∧ c ≠ ':' := by
  intro c hc
  cases x with
  | word w =>
    have hword := List.all_eq_true.1 w.isWord c (List.mem_of_mem_head? hc)
    refine ⟨not_blank_of_isWordChar hword, ?_, ?_⟩ <;>
      · rintro rfl
        exact absurd hword (by decide +kernel)
  | opening b =>
    obtain rfl := Option.some.inj hc
    cases b <;> decide
  | sign d _ =>
    obtain rfl : d = '*' := of_decide_eq_true h
    obtain rfl := Option.some.inj hc
    decide
  | arrow | dots =>
    obtain rfl := Option.some.inj hc
    decide
  | closing | comma | literal => cases h

theorem getLast?_write {x : Token} (h : x.ends = true) :
    ∀ c ∈ x.write.getLast?, isBlank c = false ∧ c ≠ ';' ∧ c ≠ ':' ∧ c ≠ '\x7b' := by
  intro c hc
  cases x with
  | word w =>
    have hword := List.all_eq_true.1 w.isWord c (List.mem_of_mem_getLast? hc)
    refine ⟨not_blank_of_isWordChar hword, ?_, ?_, ?_⟩ <;>
      · rintro rfl
        exact absurd hword (by decide +kernel)
  | closing b =>
    obtain rfl := Option.some.inj hc
    cases b <;> decide
  | opening | comma | sign | arrow | dots | literal => cases h

theorem write_ne_nil (x : Token) : x.write ≠ [] := by
  cases x with
  | word w => exact w.ne_nil
  | _ => exact List.cons_ne_nil _ _

end Token

/-- The text of a type, but for blanks behind it, begins and ends with characters that are not cut
off. -/
theorem Edged.exists_body {items : List (Token × List Char)} (h : Edged (items.map Prod.fst))
    (hblank : ∀ i ∈ items, allBlank i.2 = true) : ∃ s back, spelled items = s ++ back ∧
      allBlank back = true ∧ s ≠ [] ∧ (∀ c ∈ s.head?, isBlank c = false ∧ c ≠ '-' ∧ c ≠ ':') ∧
      ∀ c ∈ s.getLast?, isBlank c = false ∧ c ≠ ';' ∧ c ≠ ':' ∧ c ≠ '\x7b' := by
  obtain ⟨⟨x, hx, hbegins⟩, y, hy, hends⟩ := h
  rcases List.eq_nil_or_concat items with rfl | ⟨front, ⟨z, back⟩, rfl⟩
  · cases hx
  rw [List.concat_eq_append] at *
  obtain rfl : z = y := by simpa using hy
  have hbody : spelled (front ++ [(z, back)]) = (spelled front ++ z.write) ++ back := by
    simp [spelled]
  have hfirst : (spelled front ++ z.write).head? = x.write.head? := by
    cases front with
    | nil =>
      obtain rfl := Option.some.inj hx
      rfl
    | cons i front =>
      obtain rfl := Option.some.inj hx
      rw [spelled, List.flatMap_cons, List.append_assoc, List.append_assoc,
        List.head?_append_of_ne_nil _ i.1.write_ne_nil]
  have hlast : (spelled front ++ z.write).getLast? = z.write.getLast? :=
    List.getLast?_append_of_ne_nil _ z.write_ne_nil
  refine ⟨_, back, hbody, hblank (z, back) (by simp), by simp [z.write_ne_nil], ?_, ?_⟩
  · rw [hfirst]
    exact Token.head?_write hbegins
  · rw [hlast]
    exact Token.getLast?_write hends

theorem IsIdentifier.dropDots {s : List Char} (h : IsIdentifier s) : Go.dropDots s = s := by
  unfold Go.dropDots
  split
  · exact absurd List.mem_cons_self (h.not_mem (c := '.') (by decide +kernel))
  · rfl

namespace WrittenName

variable (n : WrittenName)

theorem trim_write : trim n.write = n.name := by
  have hplain := n.isIdentifier.not_blank
  rw [write, trim_append n.blank_before n.blank_after]
  exact dropAroundWhile_eq_self (fun c hc => hplain c (List.mem_of_mem_head? hc))
    fun c hc => hplain c (List.mem_of_mem_getLast? hc)

/-- A name alone has no type. -/
theorem nameAndType_write : nameAndType (trim n.write) = (n.name, none) := by
  have htake : n.name.takeWhile (fun c => !isBlank c) = n.name :=
    List.takeWhile_eq_self_iff.2 fun c hc => by simp [n.isIdentifier.not_blank c hc]
  rw [n.trim_write, nameAndType]
  simp [htake, n.isIdentifier.dropDots]

end WrittenName

namespace WrittenGroup

variable (g : WrittenGroup)

theorem edged : Edged g.tokens := by
  obtain ⟨ts, hts, heq | heq⟩ := g.isEntry
  · rw [tokens, heq]
    exact hts.edged (by simp)
  · rw [tokens, heq]
    exact .cons rfl (hts.edged (by simp))

theorem sinks : Sinks 0 g.tokens := by
  obtain ⟨ts, hts, heq | heq⟩ := g.isEntry
  · rw [tokens, heq]
    exact hts.sinks
  · rw [tokens, heq]
    exact Sinks.dots.append hts.sinks

/-- The last name has the type that is written behind it. -/
theorem nameAndType_last : nameAndType (trim (g.last.write ++ spelled g.items)) =
    (g.last.name, some (String.ofList (singleSpaced (spelled g.items)))) := by
  obtain ⟨s, back, hs, hback, hne, hfirst, hlast⟩ := g.edged.exists_body g.blank
  obtain ⟨b, gap, hgap⟩ := List.exists_cons_of_ne_nil g.apart
  have hblank := g.last.blank_after
  rw [hgap] at hblank
  obtain ⟨hb, hblank⟩ := Bool.and_eq_true_iff.1 hblank
  have hplain := g.last.isIdentifier.not_blank
  have htext : trim (g.last.write ++ spelled g.items) = g.last.name ++ b :: (gap ++ s) := by
    have hwrite : g.last.write ++ spelled g.items =
        g.last.before ++ (g.last.name ++ b :: (gap ++ s)) ++ back := by
      simp [WrittenName.write, hs, hgap]
    rw [hwrite, trim_append g.last.blank_before hback]
    refine dropAroundWhile_eq_self (fun c hc => ?_) fun c hc => ?_
    · rw [List.head?_append_of_ne_nil _ g.last.isIdentifier.ne_nil] at hc
      exact hplain c (List.mem_of_mem_head? hc)
    · rw [← List.cons_append, ← List.append_assoc, List.getLast?_append_of_ne_nil _ hne] at hc
      exact (hlast c hc).1
  have htake : (g.last.name ++ b :: (gap ++ s)).takeWhile (fun c => !isBlank c) = g.last.name := by
    rw [List.takeWhile_append_of_pos fun c hc => by simp [hplain c hc]]
    simp [hb]
  have htrim : trim s = s :=
    dropAroundWhile_eq_self (fun c hc => (hfirst c hc).1) fun c hc => (hlast c hc).1
  have hdash : s.head? ≠ some '-' := fun heq => (hfirst _ heq).2.1 rfl
  have hcolon : s.head? ≠ some ':' := fun heq => (hfirst _ heq).2.2 rfl
  have hread := typeText_append hne htrim (dropFront?_of_head?_ne hdash _) hcolon
    (fun c hc => (hlast c hc).2) hblank
  have hspaced : singleSpaced (spelled g.items) = singleSpaced s := by
    rw [hs, singleSpaced, words_append_blanks hback, singleSpaced]
  rw [htext, nameAndType, htake, List.drop_left' rfl, g.last.isIdentifier.dropDots, hspaced]
  simp [hread]

theorem deepens_texts : ∀ p ∈ g.texts, Deepens p.2 p.1 := by
  have hname : ∀ n : WrittenName, ∀ depth, Passes (atDepth depth) (atDepth depth) n.write :=
    fun n depth => ((Passes.of_allBlank n.blank_before).append
      (.of_isWordChar n.isIdentifier.2)).append (.of_allBlank n.blank_after)
  refine List.forall_mem_append.2 ⟨?_, List.forall_mem_singleton.2 ?_⟩
  · intro p hp depth
    obtain ⟨n, -, rfl⟩ := List.mem_map.1 hp
    exact hname n depth
  · intro depth
    exact (hname g.last depth).append (passes_spelled g.blank (g.sinks depth (Nat.zero_le depth)))

theorem trim_texts_ne_nil : ∀ p ∈ g.texts, (trim p.1).isEmpty = false := by
  have hne : ∀ {n : WrittenName} {s : List Char}, (nameAndType (trim s)).1 = n.name →
      (trim s).isEmpty = false := by
    intro n s hname
    rw [List.isEmpty_eq_false_iff]
    intro hempty
    rw [hempty] at hname
    exact n.isIdentifier.ne_nil hname.symm
  refine List.forall_mem_append.2 ⟨?_, List.forall_mem_singleton.2 ?_⟩
  · intro p hp
    obtain ⟨n, -, rfl⟩ := List.mem_map.1 hp
    exact hne (by rw [n.nameAndType_write])
  · exact hne (by rw [g.nameAndType_last])

/-- Names without a type take that of the name behind them. -/
theorem foldr_names (names : List WrittenName) (later : List Parameter) (type : String) :
    (names.map fun n => trim n.write).foldr withText (later, some type) =
      (names.map (fun n =>
          { Parameter.called (String.ofList n.name) with writtenType := some type }) ++ later,
        some type) := by
  induction names with
  | nil => rfl
  | cons n names ih =>
    rw [List.map_cons, List.foldr_cons, ih, withText, n.nameAndType_write]
    rfl

/-- Reading the texts of a group in front of others gives its parameters. -/
theorem foldr_texts (later : List Parameter × Option String) :
    (g.texts.map fun p => trim p.1).foldr withText later =
      (g.told ++ later.1, some (String.ofList (singleSpaced (spelled g.items)))) := by
  let type := String.ofList (singleSpaced (spelled g.items))
  let named (n : WrittenName) : Parameter :=
    { Parameter.called (String.ofList n.name) with writtenType := some type }
  have hlast : withText (trim (g.last.write ++ spelled g.items)) later =
      (named g.last :: later.1, some type) := by
    rw [withText, g.nameAndType_last]
    rfl
  have hmap : g.texts.map (fun p => trim p.1) =
      g.others.map (fun n => trim n.write) ++ [trim (g.last.write ++ spelled g.items)] := by
    simp [texts]
  rw [hmap, List.foldr_append, List.foldr_cons, List.foldr_nil, hlast, foldr_names]
  simp [told, named, type]

theorem length_told : g.told.length = g.texts.length := by
  simp [told, texts]

end WrittenGroup

/-! ## Reading groups -/

theorem length_foldr_withText (texts : List (List Char)) (later : List Parameter × Option String) :
    (texts.foldr withText later).1.length = texts.length + later.1.length := by
  induction texts with
  | nil => simp
  | cons text texts ih =>
    rw [List.foldr_cons, withText, List.length_cons, List.length_cons, ih]
    omega

/-- Reading the texts of all groups gives the parameters of each. -/
theorem fst_foldr_texts (groups : List WrittenGroup) :
    (((groups.flatMap (·.texts)).map fun p => trim p.1).foldr withText ([], none)).1 =
      groups.flatMap (·.told) := by
  induction groups with
  | nil => rfl
  | cons g groups ih =>
    rw [List.flatMap_cons, List.map_append, List.foldr_append, g.foldr_texts, ih,
      List.flatMap_cons]

/-- There are no more parameters than texts between commas. -/
theorem length_parametersOf_le (raw : List Char) :
    (parametersOf raw).length ≤ (splitOutside ',' raw).length := by
  have hfilter := List.length_filter_le (fun s => !s.isEmpty) ((splitOutside ',' raw).map trim)
  rw [List.length_map] at hfilter
  rw [parametersOf_eq, length_foldr_withText]
  exact hfilter

/-- Apart from the last, only the texts of groups before the last have arrows in them. -/
theorem forall_dropLast_texts (groups : List WrittenGroup) :
    (∀ p ∈ (groups.flatMap (·.texts)).dropLast, p.2 = 0) ↔
      ∀ g ∈ groups.dropLast, Token.arrow ∉ g.tokens := by
  have hnames : ∀ g : WrittenGroup, ∀ p ∈ g.others.map (fun n => (n.write, 0)), p.2 = 0 := by
    intro g p hp
    obtain ⟨n, -, rfl⟩ := List.mem_map.1 hp
    rfl
  have hgroup : ∀ g : WrittenGroup, (∀ p ∈ g.texts, p.2 = 0) ↔ Token.arrow ∉ g.tokens := by
    intro g
    rw [WrittenGroup.texts, List.forall_mem_append, List.forall_mem_singleton, List.count_eq_zero]
    exact and_iff_right (hnames g)
  rcases List.eq_nil_or_concat groups with rfl | ⟨front, g, rfl⟩
  · simp
  · have hlast : (front.flatMap (·.texts) ++ g.texts).dropLast =
        front.flatMap (·.texts) ++ g.others.map fun n => (n.write, 0) := by
      rw [WrittenGroup.texts, ← List.append_assoc, List.dropLast_concat]
    rw [List.concat_eq_append, List.flatMap_append, List.flatMap_singleton, hlast,
      List.dropLast_concat, List.forall_mem_append, and_iff_left (hnames g), List.forall_mem_flatMap]
    exact forall₂_congr fun g _ => hgroup g

/-- Of groups of names with their types, each name is read as a parameter with the type of its
group, in their order, exactly when no arrow stands in the type of a group before the last. -/
theorem parametersOf_writtenParameters (groups : List WrittenGroup) :
    parametersOf (writtenParameters groups) = groups.flatMap (·.told) ↔
      ∀ g ∈ groups.dropLast, Token.arrow ∉ g.tokens := by
  rcases List.eq_nil_or_concat groups with rfl | ⟨front, g, hgroups⟩
  · exact ⟨fun _ => by simp, fun _ => rfl⟩
  have hne : groups.flatMap (·.texts) ≠ [] := by
    rw [hgroups]
    simp [WrittenGroup.texts]
  have hdeep : ∀ p ∈ groups.flatMap (·.texts), Deepens p.2 p.1 :=
    List.forall_mem_flatMap.2 fun g _ => g.deepens_texts
  have hsplit := splitOutside_intercalate_of_deepens hne hdeep
  rw [← forall_dropLast_texts]
  constructor
  · intro hread
    by_contra harrow
    -- With an arrow in front of a comma, fewer texts are cut than there are names.
    rw [if_neg harrow] at hsplit
    have hle := length_parametersOf_le (writtenParameters groups)
    have hlength : (groups.flatMap (·.told)).length = (groups.flatMap (·.texts)).length := by
      simp only [List.length_flatMap, WrittenGroup.length_told]
    rw [hread, hlength] at hle
    exact absurd hsplit (Nat.not_lt.2 hle)
  · intro harrow
    rw [if_pos harrow] at hsplit
    have hfilter : ((splitOutside ',' (writtenParameters groups)).map trim).filter (!·.isEmpty) =
        (groups.flatMap (·.texts)).map fun p => trim p.1 := by
      rw [writtenParameters, hsplit, List.map_map]
      refine List.filter_eq_self.2 fun s hs => ?_
      obtain ⟨p, hp, rfl⟩ := List.mem_map.1 hs
      obtain ⟨g, -, hp⟩ := List.mem_flatMap.1 hp
      simpa using g.trim_texts_ne_nil p hp
    rw [parametersOf_eq, hfilter, fst_foldr_texts]

namespace Piped

def int : Word := ⟨"int".toList, by decide, by decide +kernel⟩

def string : Word := ⟨"string".toList, by decide, by decide +kernel⟩

/-- A channel to read from, and a text. -/
def groups : List WrittenGroup :=
  [{ others := []
     last := ⟨[], ['a'], [' '], List.all_nil, allBlank_space, by decide +kernel⟩
     items := [(.arrow, []), (.chan, [' ']), (.word int, [])]
     apart := space_ne_nil
     blank := by decide
     isEntry := ⟨_, .receiveOnly (.named (.name int)), .inl rfl⟩ },
   { others := []
     last := ⟨[' '], ['b'], [' '], allBlank_space, allBlank_space, by decide +kernel⟩
     items := [(.word string, [])]
     apart := space_ne_nil
     blank := by decide
     isEntry := ⟨_, .named (.name string), .inl rfl⟩ }]

end Piped

/-- The arrow of a channel holds the next parameter fast: it is read as a part of the type. -/
theorem parameter_taken_into_channel :
    writtenParameters Piped.groups = "a <-chan int, b string".toList ∧
      Piped.groups.flatMap (·.told) =
        [{ Parameter.called "a" with writtenType := some "<-chan int" },
          { Parameter.called "b" with writtenType := some "string" }] ∧
      parametersOf (writtenParameters Piped.groups) =
        [{ Parameter.called "a" with writtenType := some "<-chan int, b string" }] := by
  exact ⟨by decide +kernel, by decide +kernel, by decide +kernel⟩

end CodeSurvey.Go
