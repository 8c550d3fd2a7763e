-- The way along the pieces of a path, one turn after another: where it ends, that
-- it can be taken in two goes, and that it stays the same when more stands on the
-- disk, or another file where there was one.
import CodeSurvey.Proofs.Disk.Path
import CodeSurvey.Proofs.Disk.Tree

namespace CodeSurvey.Disk

open CodeSurvey.Path (moves IsName Sound ZeroFree)

/-! ## One turn -/

/-- Where one stands behind one piece: the links that may still be followed, the place, and the
pieces of a link that come before all others. -/
structure Turn where
  links : Nat
  here : List String
  pieces : List String

/-- One piece is followed from a directory, and so is a link that stands there. -/
def turn (root : Node) (links : Nat) (here : List String) (name : String) : Except Issue Turn :=
  match root.at? here with
  | some (.directory _) =>
    if name = "" || name = "." then .ok ⟨links, here, []⟩
    else if name = ".." then .ok ⟨links, here.dropLast, []⟩
    else if name.utf8ByteSize > longestName then .error .nameTooLong
    else
      match root.at? (here ++ [name]) with
      | none => .error .noEntry
      | some (.link target) =>
        match links with
        | 0 => .error .tooManyLinks
        | links + 1 => .ok ⟨links, if Path.isAbsolute target then [] else here, pieces target⟩
      | some _ => .ok ⟨links, here ++ [name], []⟩
  | _ => .error .notDirectory

variable {root : Node} {links : Nat} {here : List String} {name : String}

theorem directory_or_outside (root : Node) (here : List String) :
    (∃ es, root.at? here = some (.directory es)) ∨
      ∀ es, root.at? here ≠ some (.directory es) := by
  by_cases h : ∃ es, root.at? here = some (.directory es)
  · exact .inl h
  · exact .inr fun es hdir => h ⟨es, hdir⟩

/-- Where something answers in two goes, the first answers, and the second does from there. -/
theorem of_bind_ok {α β : Type} {x : Except Issue α} {f : α → Except Issue β} {b : β}
    (h : x.bind f = .ok b) : ∃ a, x = .ok a ∧ f a = .ok b := by
  cases x with
  | error i => cases h
  | ok a => exact ⟨a, rfl, h⟩

/-- What a turn can be: one stays, goes back, goes on to a node that is no link, or takes one
of the links. -/
theorem turn_cases {t : Turn} (h : turn root links here name = .ok t) :
    (∃ es, root.at? here = some (.directory es)) ∧
      (moves name = false ∧ t = ⟨links, here, []⟩ ∨
        name = ".." ∧ t = ⟨links, here.dropLast, []⟩ ∨
        name ≠ ".." ∧ moves name = true ∧ name.utf8ByteSize ≤ longestName ∧
          (∃ x, root.at? (here ++ [name]) = some x ∧ (∀ target, x ≠ .link target)) ∧
          t = ⟨links, here ++ [name], []⟩ ∨
        name ≠ ".." ∧ moves name = true ∧ name.utf8ByteSize ≤ longestName ∧
          ∃ target left, root.at? (here ++ [name]) = some (.link target) ∧ links = left + 1 ∧
            t = ⟨left, if Path.isAbsolute target then [] else here, pieces target⟩) := by
  unfold turn at h
  split at h
  · rename_i es hdir
    refine ⟨⟨es, hdir⟩, ?_⟩
    split at h
    · rename_i hstays
      have : moves name = false := by
        unfold Path.moves
        simp only [Bool.or_eq_true, decide_eq_true_eq] at hstays
        rcases hstays with h | h <;> simp [h]
      exact .inl ⟨this, (Except.ok.inj h).symm⟩
    · rename_i hstays
      have hmoves : moves name = true := by simpa [Path.moves] using hstays
      split at h
      · rename_i hup
        exact .inr (.inl ⟨hup, (Except.ok.inj h).symm⟩)
      · rename_i hup
        split at h
        · cases h
        · rename_i hsize
          have hsize : name.utf8ByteSize ≤ longestName := Nat.le_of_not_gt hsize
          split at h
          · cases h
          · rename_i target htarget
            split at h
            · cases h
            · rename_i left
              exact .inr (.inr (.inr ⟨hup, hmoves, hsize, target, left, htarget, rfl,
                (Except.ok.inj h).symm⟩))
          · rename_i x hnot hx
            exact .inr (.inr (.inl ⟨hup, hmoves, hsize, ⟨x, hx, fun target e => hnot target e⟩,
              (Except.ok.inj h).symm⟩))
  · cases h

theorem turn_measure {t : Turn} (h : turn root links here name = .ok t) :
    t.links < links ∨ t.links = links ∧ t.pieces = [] := by
  obtain ⟨-, ⟨-, rfl⟩ | ⟨-, rfl⟩ | ⟨-, -, -, -, rfl⟩ | ⟨-, -, -, _, left, -, rfl, rfl⟩⟩ :=
    turn_cases h
  · exact .inr ⟨rfl, rfl⟩
  · exact .inr ⟨rfl, rfl⟩
  · exact .inr ⟨rfl, rfl⟩
  · exact .inl (Nat.lt_succ_self left)

theorem turn_outside (h : ∀ es, root.at? here ≠ some (.directory es)) :
    turn root links here name = .error .notDirectory := by
  unfold turn
  split
  · rename_i es hdir
    exact absurd hdir (h es)
  · rfl

variable {es : List (String × Node)}

theorem turn_stay (hdir : root.at? here = some (.directory es)) (hname : moves name = false) :
    turn root links here name = .ok ⟨links, here, []⟩ := by
  have : (name = "" || name = ".") = true := by
    simpa [moves, Decidable.imp_iff_not_or] using hname
  rw [turn, hdir]
  exact if_pos this

theorem turn_up (hdir : root.at? here = some (.directory es)) :
    turn root links here ".." = .ok ⟨links, here.dropLast, []⟩ := by
  rw [turn, hdir]
  rfl

/-- At a name one looks for what stands there. -/
theorem turn_name (hdir : root.at? here = some (.directory es)) (hmoves : moves name = true)
    (hup : name ≠ "..") :
    turn root links here name =
      if name.utf8ByteSize > longestName then .error .nameTooLong
      else
        match root.at? (here ++ [name]) with
        | none => .error .noEntry
        | some (.link target) =>
          match links with
          | 0 => .error .tooManyLinks
          | links + 1 => .ok ⟨links, if Path.isAbsolute target then [] else here, pieces target⟩
        | some _ => .ok ⟨links, here ++ [name], []⟩ := by
  have hstays : ¬ (name = "" || name = ".") = true := by simpa [moves] using hmoves
  rw [turn, hdir]
  dsimp only
  rw [if_neg hstays, if_neg hup]

/-- Nothing is found where a name is free in a directory. -/
theorem turn_noEntry (h : turn root links here name = .error .noEntry) :
    (∃ es, root.at? here = some (.directory es)) ∧ moves name = true ∧ name ≠ ".." ∧
      name.utf8ByteSize ≤ longestName ∧ root.at? (here ++ [name]) = none := by
  rcases directory_or_outside root here with ⟨es, hdir⟩ | hout
  · cases hmoves : moves name with
    | false =>
      rw [turn_stay hdir hmoves] at h
      cases h
    | true =>
      by_cases hup : name = ".."
      · rw [hup, turn_up hdir] at h
        cases h
      · rw [turn_name hdir hmoves hup] at h
        split at h
        · cases h
        · rename_i hsize
          split at h
          · rename_i hnone
            exact ⟨⟨es, hdir⟩, rfl, hup, Nat.le_of_not_gt hsize, hnone⟩
          · split at h <;> cases h
          · cases h
  · rw [turn_outside hout] at h
    cases h

/-! ## Ways -/

/-- Follows pieces from a directory, turn by turn. The answer has the links that may still be
followed and the place that is reached. -/
def walk (root : Node) (links : Nat) (here : List String) (todo : List String) :
    Except Issue (Nat × List String) :=
  match todo with
  | [] => .ok (links, here)
  | name :: rest =>
    match _h : turn root links here name with
    | .error i => .error i
    | .ok t => walk root t.links t.here (t.pieces ++ rest)
termination_by (links, todo.length)
decreasing_by
  rcases turn_measure _h with hless | ⟨hsame, hpieces⟩
  · exact Prod.Lex.left _ _ hless
  · rw [hsame, hpieces]
    exact Prod.Lex.right _ (Nat.lt_succ_self rest.length)

@[simp] theorem walk_nil : walk root links here [] = .ok (links, here) := by
  rw [walk]

theorem walk_cons (rest : List String) : walk root links here (name :: rest) =
    (turn root links here name).bind fun t => walk root t.links t.here (t.pieces ++ rest) := by
  rw [walk]
  split <;> simp_all [Except.bind]

theorem of_walk_cons {rest : List String} {x : Nat × List String}
    (h : walk root links here (name :: rest) = .ok x) : ∃ t,
      turn root links here name = .ok t ∧
        walk root t.links t.here (t.pieces ++ rest) = .ok x := by
  rw [walk_cons] at h
  exact of_bind_ok h

/-- Before more pieces, following is a turn and then following. -/
theorem follow_cons (last : Bool) {rest : List String} (hrest : rest ≠ []) :
    follow root last links here (name :: rest) =
      (turn root links here name).bind fun t =>
        follow root last t.links t.here (t.pieces ++ rest) := by
  rw [follow_piece, turn]
  cases root.at? here with
  | none => rfl
  | some n =>
    cases n with
    | directory es =>
      simp only [hrest, if_false, decide_false, Bool.false_and, Bool.false_eq_true]
      by_cases hstays : (name = "" || name = ".") = true
      · rw [if_pos hstays, if_pos hstays]
        rfl
      rw [if_neg hstays, if_neg hstays]
      by_cases hup : name = ".."
      · rw [if_pos hup, if_pos hup]
        rfl
      rw [if_neg hup, if_neg hup]
      by_cases hlong : name.utf8ByteSize > longestName
      · rw [if_pos hlong, if_pos hlong]
        rfl
      rw [if_neg hlong, if_neg hlong]
      cases root.at? (here ++ [name]) with
      | none => rfl
      | some x =>
        cases x with
        | link target => cases links <;> rfl
        | _ => rfl
    | _ => rfl

/-- What holds at the end of every way and is handed back over each turn holds of every way. -/
theorem turns_induction (root : Node) {P : Nat → List String → List String → Prop}
    (nil : ∀ l h, P l h [])
    (cons : ∀ l h name rest,
      (∀ t, turn root l h name = .ok t → P t.links t.here (t.pieces ++ rest)) →
        P l h (name :: rest))
    (links : Nat) (here todo : List String) : P links here todo := by
  induction links using Nat.strongRecOn generalizing here todo with
  | ind links ihlinks =>
    induction todo generalizing here with
    | nil => exact nil links here
    | cons name rest ih =>
      refine cons links here name rest fun t ht => ?_
      rcases turn_measure ht with hless | ⟨hsame, hpieces⟩
      · exact ihlinks t.links hless t.here (t.pieces ++ rest)
      · rw [hsame, hpieces]
        exact ih t.here

/-- A way can be taken in two goes. -/
theorem walk_append (ps qs : List String) :
    walk root links here (ps ++ qs) =
      (walk root links here ps).bind fun x => walk root x.1 x.2 qs := by
  induction links, here, ps using turns_induction root with
  | nil l h => simp [Except.bind]
  | cons l h name rest ih =>
    rw [List.cons_append, walk_cons, walk_cons]
    cases ht : turn root l h name with
    | error i => rfl
    | ok t => simpa [Except.bind] using ih t ht

/-- What comes behind a way is followed from where the way ends. -/
theorem follow_append (last : Bool) (ps : List String) {qs : List String} (hqs : qs ≠ []) :
    follow root last links here (ps ++ qs) =
      (walk root links here ps).bind fun x => follow root last x.1 x.2 qs := by
  induction links, here, ps using turns_induction root with
  | nil l h => simp [Except.bind]
  | cons l h name rest ih =>
    rw [List.cons_append, follow_cons last (by simp [hqs]), walk_cons]
    cases ht : turn root l h name with
    | error i => rfl
    | ok t => simpa [Except.bind] using ih t ht

/-- Pieces that stay do not matter before a last one that does. -/
theorem walk_thin (ps : List String) :
    walk root links here (ps ++ ["."]) = walk root links here (ps.filter moves ++ ["."]) := by
  induction links using Nat.strongRecOn generalizing here ps with
  | ind links ihlinks =>
    induction ps generalizing here with
    | nil => rfl
    | cons name rest ih =>
      by_cases hname : moves name = true
      · rw [List.filter_cons_of_pos hname, List.cons_append, List.cons_append, walk_cons, walk_cons]
        cases ht : turn root links here name with
        | error i => rfl
        | ok t =>
          show walk root t.links t.here (t.pieces ++ (rest ++ ["."])) =
            walk root t.links t.here (t.pieces ++ (rest.filter moves ++ ["."]))
          rcases turn_measure ht with hless | ⟨hsame, hpieces⟩
          · -- behind a link both ways are thinned, and then they are the same
            have hall := @ihlinks t.links hless t.here (t.pieces ++ rest)
            have hthin := @ihlinks t.links hless t.here (t.pieces ++ rest.filter moves)
            have hfilter : (t.pieces ++ rest.filter moves).filter moves =
                (t.pieces ++ rest).filter moves := by
              simp [List.filter_append, List.filter_filter]
            rw [← List.append_assoc, ← List.append_assoc, hall, hthin, hfilter]
          · rw [hsame, hpieces]
            exact ih
      · have hstays : moves name = false := by simpa using hname
        rw [List.filter_cons_of_neg hname, ← ih, List.cons_append, walk_cons]
        rcases directory_or_outside root here with ⟨es, hdir⟩ | hout
        · rw [turn_stay hdir hstays]
          rfl
        · obtain ⟨q, qs, hqs⟩ := List.exists_cons_of_ne_nil (l := rest ++ ["."]) (by simp)
          rw [turn_outside hout, hqs, walk_cons, turn_outside hout]
          rfl

theorem follow_dot (last : Bool) {qs : List String} (hqs : qs ≠ []) :
    follow root last links here ("." :: qs) = follow root last links here qs := by
  rw [follow_cons last hqs]
  rcases directory_or_outside root here with ⟨es, hdir⟩ | hout
  · rw [turn_stay hdir (by decide)]
    rfl
  · obtain ⟨q, qs, rfl⟩ := List.exists_cons_of_ne_nil hqs
    rw [turn_outside hout, follow_piece]
    split
    · rename_i es h
      exact absurd h (hout es)
    · rfl

/-- Pieces that stay do not matter before others. -/
theorem follow_thin (last : Bool) (ps : List String) {qs : List String} (hqs : qs ≠ []) :
    follow root last links here (ps ++ qs) =
      (walk root links here (ps.filter moves)).bind fun x => follow root last x.1 x.2 qs := by
  have hdot : ∀ rs : List String, follow root last links here (rs ++ qs) =
      (walk root links here (rs ++ ["."])).bind fun x => follow root last x.1 x.2 qs := by
    intro rs
    calc follow root last links here (rs ++ qs)
      _ = (walk root links here rs).bind fun x => follow root last x.1 x.2 ("." :: qs) := by
        rw [follow_append last rs hqs]
        simp only [follow_dot last hqs]
      _ = follow root last links here ((rs ++ ["."]) ++ qs) := by
        rw [List.append_assoc, follow_append last rs (by simp)]
        rfl
      _ = _ := follow_append last (rs ++ ["."]) hqs
  rw [hdot, walk_thin, ← hdot, follow_append last _ hqs]

/-- A last piece is a turn too, unless the name is free, or that of a link that is not followed. -/
theorem follow_single (root : Node) (last : Bool) (links : Nat) (here : List String)
    (name : String) :
    follow root last links here [name] =
        (turn root links here name).bind (fun t => follow root last t.links t.here t.pieces) ∨
      turn root links here name = .error .noEntry ∧
        follow root last links here [name] = .ok (.free here name) ∨
      last = false ∧ follow root last links here [name] = .ok (.taken (here ++ [name])) := by
  rw [follow_piece, turn]
  cases root.at? here with
  | none => exact .inl rfl
  | some n =>
    cases n with
    | directory es =>
      dsimp only
      by_cases hstays : (name = "" || name = ".") = true
      · rw [if_pos hstays, if_pos hstays]
        exact .inl rfl
      rw [if_neg hstays, if_neg hstays]
      by_cases hup : name = ".."
      · rw [if_pos hup, if_pos hup]
        exact .inl rfl
      rw [if_neg hup, if_neg hup]
      by_cases hlong : name.utf8ByteSize > longestName
      · rw [if_pos hlong, if_pos hlong]
        exact .inl rfl
      rw [if_neg hlong, if_neg hlong]
      cases root.at? (here ++ [name]) with
      | none => exact .inr (.inl ⟨rfl, rfl⟩)
      | some x =>
        cases x with
        | link target =>
          cases last with
          | false => exact .inr (.inr ⟨rfl, rfl⟩)
          | true =>
            cases links with
            | zero => exact .inl rfl
            | succ left => exact .inl (by simp [Except.bind])
        | _ => exact .inl rfl
    | _ => exact .inl rfl

/-- A last piece is a turn too, unless the name is free. -/
theorem follow_last (root : Node) (links : Nat) (here : List String) (name : String) :
    follow root true links here [name] =
        (turn root links here name).bind (fun t => follow root true t.links t.here t.pieces) ∨
      turn root links here name = .error .noEntry ∧
        follow root true links here [name] = .ok (.free here name) := by
  rcases follow_single root true links here name with h | h | ⟨hlast, -⟩
  · exact .inl h
  · exact .inr h
  · cases hlast

/-- Links are followed at the end as well: that is where the whole way leads. -/
theorem follow_true {todo x : List String} : follow root true links here todo = .ok (.taken x) ↔
    ∃ l, walk root links here todo = .ok (l, x) := by
  induction links, here, todo using turns_induction root with
  | nil l h => simp [follow_nil]
  | cons l h name rest ih =>
    rw [walk_cons]
    by_cases hrest : rest = []
    · subst hrest
      rcases follow_last root l h name with hfollow | ⟨hturn, hfree⟩
      · rw [hfollow]
        cases ht : turn root l h name with
        | error i => simp [Except.bind]
        | ok t => simpa [Except.bind] using ih t ht
      · rw [hturn, hfree]
        simp [Except.bind]
    · rw [follow_cons true hrest]
      cases ht : turn root l h name with
      | error i => simp [Except.bind]
      | ok t => simpa [Except.bind] using ih t ht

/-- A name that is found to be free is free in a directory. -/
theorem follow_free {last : Bool} {todo directory : List String} {free : String}
    (h : follow root last links here todo = .ok (.free directory free)) :
    (∃ es, root.at? directory = some (.directory es)) ∧ root.at? (directory ++ [free]) = none := by
  induction links, here, todo using turns_induction root with
  | nil l p => simp [follow_nil] at h
  | cons l p name rest ih =>
    by_cases hrest : rest = []
    · subst hrest
      rcases follow_single root last l p name with hfollow | ⟨hturn, hfollow⟩ | ⟨-, hfollow⟩
      · rw [hfollow] at h
        obtain ⟨t, ht, h⟩ := of_bind_ok h
        exact ih t ht (by simpa using h)
      · obtain ⟨rfl, rfl⟩ : p = directory ∧ name = free := by
          simpa using hfollow.symm.trans h
        obtain ⟨hdir, -, -, -, hnone⟩ := turn_noEntry hturn
        exact ⟨hdir, hnone⟩
      · cases hfollow.symm.trans h
    · rw [follow_cons last hrest] at h
      obtain ⟨t, ht, h⟩ := of_bind_ok h
      exact ih t ht h

/-- A last piece that stays asks only whether the end of the way is a directory. -/
theorem walk_dot {ps D : List String} (hdir : root.at? D = some (.directory es)) :
    (∃ l, walk root links here ps = .ok (l, D)) ↔
      ∃ l, walk root links here (ps ++ ["."]) = .ok (l, D) := by
  have hat : ∀ l, walk root l D ["."] = .ok (l, D) := by
    intro l
    rw [walk_cons, turn_stay hdir (by decide)]
    simp [Except.bind]
  rw [walk_append]
  constructor
  · rintro ⟨l, h⟩
    exact ⟨l, by rw [h]; exact hat l⟩
  · rintro ⟨l, h⟩
    obtain ⟨⟨l', D'⟩, hps, hdot⟩ := of_bind_ok h
    obtain ⟨t, ht, hend⟩ := of_walk_cons hdot
    obtain ⟨⟨es', hdir'⟩, -⟩ := turn_cases ht
    rw [turn_stay hdir' (by decide)] at ht
    cases ht
    simp only [List.append_nil, walk_nil, Except.ok.injEq, Prod.mk.injEq] at hend
    exact ⟨l', by rw [hps, hend.2]⟩

/-! ## More on the disk -/

/-- Everything that stands in the first tree stands in the second. -/
def Extends (root root' : Node) : Prop :=
  ∀ (q : List String) (b : Node), root.stands q = some b → root'.stands q = some b

theorem Extends.refl (root : Node) : Extends root root := fun _ _ h => h

theorem Extends.trans {a b c : Node} (h : Extends a b) (h' : Extends b c) : Extends a c :=
  fun q x hx => h' q x (h q x hx)

/-- What is put where nothing stands touches nothing. -/
theorem Extends.put {names : List String} (x : Node) (hfree : root.at? names = none) :
    Extends root (root.put x names) := by
  intro q b hb
  by_cases hq : names <+: q
  · obtain ⟨rest, rfl⟩ := hq
    rw [Node.stands, Node.at?_append, hfree] at hb
    cases hb
  · rw [Node.stands_put _ _ hq, hb]

variable {root' : Node}

/-- Everything in the first tree stands in the second, but that a file may be another file. Whoever
goes through the first can go the same way through the second. -/
def Passable (root root' : Node) : Prop :=
  ∀ (q : List String) (b : Node), root.stands q = some b → root'.stands q = some b ∨
    ∃ c c', b = .file c ∧ root'.stands q = some (.file c')

theorem Extends.passable (h : Extends root root') : Passable root root' :=
  fun q b hb => .inl (h q b hb)

theorem Passable.directory (h : Passable root root') {q : List String}
    (hq : root.at? q = some (.directory es)) : ∃ es', root'.at? q = some (.directory es') := by
  rcases h q _ (Node.stands_of_directory hq) with hsame | ⟨c, c', hfile, -⟩
  · exact Node.directory_of_stands hsame
  · cases hfile

theorem Passable.link (h : Passable root root') {q : List String} {target : String}
    (hq : root.at? q = some (.link target)) : root'.at? q = some (.link target) := by
  rcases h q (.link target) (by simp [Node.stands, hq]) with hsame | ⟨c, c', hfile, -⟩
  · obtain ⟨y, hy, hbare⟩ := Node.stands_eq_some.1 hsame
    cases y with
    | link t => rw [hy, ← hbare]; rfl
    | _ => simp [Node.bare, Node.empty] at hbare
  · cases hfile

/-- What is no link has not become one. -/
theorem Passable.some (h : Passable root root') {q : List String} {x : Node}
    (hq : root.at? q = some x) (hx : ∀ target, x ≠ .link target) :
    ∃ y, root'.at? q = some y ∧ ∀ target, y ≠ .link target := by
  have hlink : ∀ target, x.bare ≠ .link target := by
    intro target hbare
    cases x with
    | link t => exact hx t rfl
    | _ => simp [Node.bare, Node.empty] at hbare
  rcases h q x.bare (by simp [Node.stands, hq]) with hsame | ⟨c, c', -, hfile⟩
  · obtain ⟨y, hy, hbare⟩ := Node.stands_eq_some.1 hsame
    refine ⟨y, hy, ?_⟩
    rintro target rfl
    exact hlink target hbare.symm
  · obtain ⟨y, hy, hbare⟩ := Node.stands_eq_some.1 hfile
    refine ⟨y, hy, ?_⟩
    rintro target rfl
    cases hbare

theorem Passable.turn (h : Passable root root') {t : Turn}
    (ht : turn root links here name = .ok t) : Disk.turn root' links here name = .ok t := by
  obtain ⟨⟨es, hdir⟩, hcases⟩ := turn_cases ht
  obtain ⟨es', hdir'⟩ := h.directory hdir
  rcases hcases with ⟨hstays, rfl⟩ | ⟨rfl, rfl⟩ | ⟨hup, hmoves, hsize, ⟨x, hx, hnot⟩, rfl⟩ |
    ⟨hup, hmoves, hsize, target, left, hlink, rfl, rfl⟩
  · exact turn_stay hdir' hstays
  · exact turn_up hdir'
  · obtain ⟨y, hy, hnot'⟩ := h.some hx hnot
    rw [turn_name hdir' hmoves hup, if_neg (Nat.not_lt.2 hsize), hy]
    cases y with
    | link target => exact absurd rfl (hnot' target)
    | _ => rfl
  · rw [turn_name hdir' hmoves hup, if_neg (Nat.not_lt.2 hsize), h.link hlink]

/-- A way that leads somewhere leads there still. -/
theorem Passable.walk (h : Passable root root') {todo : List String} {x : Nat × List String}
    (hx : walk root links here todo = .ok x) : Disk.walk root' links here todo = .ok x := by
  induction links, here, todo using turns_induction root with
  | nil l h => simpa using hx
  | cons l p name rest ih =>
    obtain ⟨t, ht, hrest⟩ := of_walk_cons hx
    rw [walk_cons, h.turn ht]
    exact ih t ht hrest

/-- A way that leads somewhere leads there still when more stands on the disk. -/
theorem Extends.walk (h : Extends root root') {todo : List String} {x : Nat × List String}
    (hx : walk root links here todo = .ok x) : Disk.walk root' links here todo = .ok x :=
  h.passable.walk hx

/-- Where something stands now at the name that was free, the way leads there. -/
theorem Passable.walk_free (h : Passable root root') {todo directory : List String} {free : String}
    {x : Node} (hfree : follow root true links here todo = .ok (.free directory free))
    (hx : root'.at? (directory ++ [free]) = Option.some x) (hlink : ∀ target, x ≠ .link target) :
    ∃ l, Disk.walk root' links here todo = .ok (l, directory ++ [free]) := by
  induction links, here, todo using turns_induction root with
  | nil l p => simp [follow_nil] at hfree
  | cons l p name rest ih =>
    by_cases hrest : rest = []
    · subst hrest
      rcases follow_last root l p name with hfollow | ⟨hturn, hfollow⟩
      · rw [hfollow] at hfree
        obtain ⟨t, ht, hfree⟩ := of_bind_ok hfree
        obtain ⟨k, hk⟩ := ih t ht (by simpa using hfree)
        exact ⟨k, by rw [walk_cons, h.turn ht]; exact hk⟩
      · obtain ⟨rfl, rfl⟩ : p = directory ∧ name = free := by
          simpa using hfollow.symm.trans hfree
        obtain ⟨⟨es, hdir⟩, hmoves, hup, hsize, -⟩ := turn_noEntry hturn
        obtain ⟨es', hdir'⟩ := h.directory hdir
        have hturn' : Disk.turn root' l p name = .ok ⟨l, p ++ [name], []⟩ := by
          rw [turn_name hdir' hmoves hup, if_neg (Nat.not_lt.2 hsize), hx]
          cases x with
          | link target => exact absurd rfl (hlink target)
          | _ => rfl
        refine ⟨l, ?_⟩
        rw [walk_cons, hturn']
        simp [Except.bind]
    · rw [follow_cons true hrest] at hfree
      obtain ⟨t, ht, hfree⟩ := of_bind_ok hfree
      obtain ⟨k, hk⟩ := ih t ht hfree
      exact ⟨k, by rw [walk_cons, h.turn ht]; exact hk⟩

/-! ## Ways of paths -/

variable (d : Disk)

/-- Where the way of a path starts. -/
def begin (ps : List Path.Part) : List String :=
  if ps.head? = some .root then [] else d.workingDirectory

/-- The way along the parts of a path. -/
def way (ps : List Path.Part) : Except Issue (Nat × List String) :=
  Disk.walk d.root mostLinks (d.begin ps) (Path.steps ps)

variable {d}

theorem begin_append {ps qs : List Path.Part} (h : ps = [] → qs.head? ≠ some .root) :
    d.begin (ps ++ qs) = d.begin ps := by
  rcases ps with - | ⟨p, ps⟩
  · simp [begin, h rfl]
  · rfl

theorem way_append {ps qs : List Path.Part} (h : ps = [] → qs.head? ≠ some .root) :
    d.way (ps ++ qs) = (d.way ps).bind fun x => Disk.walk d.root x.1 x.2 (Path.steps qs) := by
  rw [way, begin_append h, Path.steps_append, walk_append]
  rfl

theorem way_names (ps : List Path.Part) (names : List String) :
    d.way (ps ++ names.map .name) = (d.way ps).bind fun x => Disk.walk d.root x.1 x.2 names := by
  rw [way_append, Path.steps_names]
  intro _
  cases names <;> simp

/-- The place of a path: pieces are followed to what comes last from where the way before it
leads. -/
theorem place_eq {path : String} {front back : List String} {ps : List Path.Part} (last : Bool)
    (hzero : ZeroFree path) (hne : path ≠ "") (hpieces : pieces path = front ++ back)
    (hback : back ≠ []) (hfront : front.filter moves = Path.steps ps)
    (hbegin : Path.isAbsolute path = true ↔ ps.head? = some .root) :
    d.place last path = (d.way ps).bind fun x => follow d.root last x.1 x.2 back := by
  have hstart : (if Path.isAbsolute path then [] else d.workingDirectory) = d.begin ps := by
    simp only [begin, hbegin]
  have hcontains : ¬ path.toList.contains '\x00' = true := by simpa [ZeroFree] using hzero
  rw [place, if_neg hcontains, if_neg hne]
  simp only [hstart, hpieces]
  rw [follow_thin last front hback, hfront]
  rfl

theorem place_join (base : String) {names : List String} (last : Bool) (hne : names ≠ [])
    (hnames : ∀ s ∈ names, IsName s) (hzero : ZeroFree (Path.join base ("/".intercalate names))) :
    d.place last (Path.join base ("/".intercalate names)) =
      (d.way (Path.parts base)).bind fun x => follow d.root last x.1 x.2 names := by
  obtain ⟨front, hpieces, hfront, -⟩ := Path.pieces_join base hne hnames
  have hparts := Path.parts_join base hne hnames
  refine place_eq last hzero ?_ hpieces hne ?_ ?_
  · intro hempty
    rw [hempty, Path.parts_empty] at hparts
    simp [hne] at hparts
  · rw [hfront, Path.steps_parts]
  · rw [← Path.head?_parts, hparts]
    cases Path.parts base with
    | nil => cases names <;> simp
    | cons p ps => simp

theorem place_ofParts {init : List Path.Part} {p : Path.Part} {s : String} (last : Bool)
    (h : Sound (init ++ [p])) (hp : p.step? = some s)
    (hzero : ZeroFree (Path.ofParts (init ++ [p]))) :
    d.place last (Path.ofParts (init ++ [p])) =
      (d.way init).bind fun x => follow d.root last x.1 x.2 [s] := by
  have hroot : p ≠ .root := by
    rintro rfl
    cases hp
  have htext : p.text = s := by
    cases p <;> simp_all [Path.Part.step?, Path.Part.text]
  have hpieces : pieces (Path.ofParts (init ++ [p])) = init.map Path.Part.text ++ [s] := by
    rw [Path.pieces_ofParts h (by simp) (by
      rintro hr
      cases init with
      | nil => exact hroot (by simpa using hr)
      | cons q qs => simp at hr), List.map_append, List.map_singleton, htext]
  refine place_eq last hzero (Path.ofParts_ne_empty h (by simp)) hpieces (by simp)
    (Path.filter_text h.front_append.names) ?_
  rw [← Path.head?_parts, Path.parts_ofParts h]
  cases init with
  | nil => simpa using hroot
  | cons q qs => simp

theorem place_ok {last : Bool} {path : String} {there : Place} :
    d.place last path = .ok there ↔ ZeroFree path ∧ path ≠ "" ∧
      follow d.root last mostLinks (d.begin (Path.parts path)) (pieces path) = .ok there := by
  have hstart : d.begin (Path.parts path) =
      if Path.isAbsolute path then [] else d.workingDirectory := by
    simp only [begin, Path.head?_parts]
  rw [place, hstart]
  by_cases hzero : ZeroFree path
  · rw [if_neg (by simpa [ZeroFree] using hzero)]
    by_cases hne : path = ""
    · simp [hne]
    · simp [hzero, hne]
  · rw [if_pos (by simpa [ZeroFree] using hzero)]
    simp [hzero]

theorem place_free {last : Bool} {path : String} {directory : List String} {name : String}
    (h : d.place last path = .ok (.free directory name)) :
    (∃ es, d.root.at? directory = some (.directory es)) ∧
      d.root.at? (directory ++ [name]) = none :=
  follow_free (place_ok.1 h).2.2

/-- A directory is made at a name that was free. -/
theorem makeDirectory_ok {d' : Disk} {path : String} (h : d.makeDirectory path = .ok d') :
    ∃ directory name, d.place false path = .ok (.free directory name) ∧
      d' = d.put .empty (directory ++ [name]) := by
  unfold makeDirectory at h
  obtain ⟨place, hplace, h⟩ := of_bind_ok h
  cases place with
  | taken names => cases h
  | free directory name => exact ⟨directory, name, hplace, (Except.ok.inj h).symm⟩

theorem locate_ok {last : Bool} {path : String} {names : List String} :
    d.locate last path = .ok names ↔ d.place last path = .ok (.taken names) := by
  unfold locate
  split <;> simp_all

theorem locate_true {path : String} {X : List String} : d.locate true path = .ok X ↔
    ZeroFree path ∧ path ≠ "" ∧
      ∃ l, Disk.walk d.root mostLinks (d.begin (Path.parts path)) (pieces path) = .ok (l, X) := by
  rw [locate_ok, place_ok, follow_true]

/-- A path leads to a directory where its way does. -/
theorem locate_iff {path : String} {D : List String} (hdir : d.root.at? D = some (.directory es)) :
    d.locate true path = .ok D ↔
      ZeroFree path ∧ path ≠ "" ∧ ∃ l, d.way (Path.parts path) = .ok (l, D) := by
  rw [locate_true, walk_dot hdir, walk_thin, ← walk_dot hdir, way, Path.steps_parts]

variable {d' : Disk}

theorem begin_same (hsame : d'.workingDirectory = d.workingDirectory) (ps : List Path.Part) :
    d'.begin ps = d.begin ps := by
  simp only [begin, hsame]

theorem Passable.locate (h : Passable d.root d'.root)
    (hsame : d'.workingDirectory = d.workingDirectory) {path : String} {X : List String}
    (hX : d.locate true path = .ok X) : d'.locate true path = .ok X := by
  obtain ⟨hzero, hne, l, hwalk⟩ := locate_true.1 hX
  exact locate_true.2 ⟨hzero, hne, l, by rw [begin_same hsame]; exact h.walk hwalk⟩

/-- A path leads to where it did when more stands on the disk. -/
theorem Extends.locate (h : Extends d.root d'.root)
    (hsame : d'.workingDirectory = d.workingDirectory) {path : String} {X : List String}
    (hX : d.locate true path = .ok X) : d'.locate true path = .ok X :=
  h.passable.locate hsame hX

/-- A path leads to the name that was free where something stands there now. -/
theorem Passable.locate_free (h : Passable d.root d'.root)
    (hsame : d'.workingDirectory = d.workingDirectory) {path name : String}
    {directory : List String} (hfree : d.place true path = .ok (.free directory name)) {x : Node}
    (hx : d'.root.at? (directory ++ [name]) = Option.some x) (hlink : ∀ target, x ≠ .link target) :
    d'.locate true path = .ok (directory ++ [name]) := by
  obtain ⟨hzero, hne, hfollow⟩ := place_ok.1 hfree
  obtain ⟨l, hwalk⟩ := h.walk_free hfollow hx hlink
  exact locate_true.2 ⟨hzero, hne, l, by rw [begin_same hsame]; exact hwalk⟩

theorem isDirectory_iff {path : String} : d.isDirectory path = true ↔
    ZeroFree path ∧ path ≠ "" ∧
      ∃ l D es, d.way (Path.parts path) = .ok (l, D) ∧ d.root.at? D = some (.directory es) := by
  have hnode : d.isDirectory path = true ↔
      ∃ D es, d.locate true path = .ok D ∧ d.root.at? D = some (.directory es) := by
    unfold isDirectory node
    cases d.locate true path with
    | error i => simp [bind, Except.bind]
    | ok D =>
      cases hD : d.root.at? D with
      | none => simp [bind, Except.bind, hD]
      | some n => cases n <;> simp [bind, Except.bind, pure, Except.pure, hD, Node.isDirectory]
  rw [hnode]
  constructor
  · rintro ⟨D, es, hlocate, hdir⟩
    obtain ⟨hzero, hne, l, hway⟩ := (locate_iff hdir).1 hlocate
    exact ⟨hzero, hne, l, D, es, hway, hdir⟩
  · rintro ⟨hzero, hne, l, D, es, hway, hdir⟩
    exact ⟨D, es, (locate_iff hdir).2 ⟨hzero, hne, l, hway⟩, hdir⟩

end CodeSurvey.Disk
