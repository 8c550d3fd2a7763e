-- Clients that share a store in memory, each for a repository of its own. Calls for
-- different repositories commute: each client is told what it would be told if no other
-- one made any calls, and finds the same in the store. Only the ids are others, because
-- all clients draw them from one counter; their order is the same.
import CodeSurvey.Proofs.Store.Matching
import CodeSurvey.Proofs.Store.Only

namespace CodeSurvey

/-! ## Turns -/

/-- A store in memory with a client for each repository. Each client knows the files that were
returned to it. -/
structure Shared where
  store : MemoryStore
  returned : String → List StoredFile

/-- What the client knows is known to the clients of all repositories. -/
def Client.shared (k : Client MemoryStore) : Shared := ⟨k.store, fun _ => k.returned⟩

namespace Shared

/-- The client of a repository. -/
def client (w : Shared) (q : String) : Client MemoryStore := ⟨w.store, w.returned q⟩

/-- What comes of a call by the client of a repository. -/
def ask (w : Shared) (q : String) (call : StoreCall) : Except Failure StoreAnswer × Shared :=
  let (a, k) := (w.client q).ask call
  (a, ⟨k.store, Function.update w.returned q k.returned⟩)

/-- The store and the clients behind calls that were made in turns. -/
def after (w : Shared) : List (String × StoreCall) → Shared
  | [] => w
  | (r, call) :: rest => (w.ask r call).2.after rest

/-- What the client of a repository is told in its turns. -/
def answersTo (w : Shared) (q : String) :
    List (String × StoreCall) → List (Except Failure StoreAnswer)
  | [] => []
  | (r, call) :: rest =>
    if r = q then (w.ask r call).1 :: (w.ask r call).2.answersTo q rest
    else (w.ask r call).2.answersTo q rest

/-- In its turn each client makes a fair call for its repository. -/
def FairTurns (w : Shared) : List (String × StoreCall) → Prop
  | [] => True
  | (r, call) :: rest =>
    call.Fair (w.client r) ∧ call.On (w.client r) r ∧ FairTurns (w.ask r call).2 rest

end Shared

/-- The calls in the turns of a client. -/
def callsOf (q : String) (turns : List (String × StoreCall)) : List StoreCall :=
  (turns.filter (fun t => t.1 == q)).map (·.2)

/-- Of the repository the stores hold the same up to the renaming. -/
structure SameOf (ρ : Renaming) (q : String) (s t : MemoryStore) : Prop where
  files : List.Forall₂ (SameFile ρ.forAll) (s.contents.filesOf q) (t.contents.filesOf q)
  facts : List.Forall₂ (SameFact ρ.forAll) (s.contents.factsOf q) (t.contents.factsOf q)
  edges : List.Forall₂ (SameEdge ρ.forAll) (s.contents.edgesOf q) (t.contents.edgesOf q)
  repository : s.contents.repositoryOf q = t.contents.repositoryOf q

theorem Alike.sameOf {ρ : Renaming} {q : String} {s t : MemoryStore}
    (h : Alike ρ.forAll (s.only q).contents (t.only q).contents) : SameOf ρ q s t where
  files := h.files
  facts := h.facts
  edges := h.edges
  repository := by
    have hrepository := h.repositoryOf q
    exact (s.repositoryOf_only q).symm.trans (hrepository.trans (t.repositoryOf_only q))

/-! ## Ids that stay -/

theorem toInt_ofInt_of_lt {last : Int64} {n : Nat} (h : n < last.toInt.toNat) :
    (Int64.ofInt (n + 1)).toInt = n + 1 := by
  have hlast := last.toInt_lt
  exact Int64.toInt_ofInt_of_le (by omega) (by omega)

namespace Renaming

/-- The renaming that leaves all ids up to the last one as they are. -/
def same (last : Int64) : Renaming where
  pairs := (List.range last.toInt.toNat).map
    (fun n : Nat => (Int64.ofInt (n + 1), Int64.ofInt (n + 1)))
  ordered := by
    rw [List.pairwise_map]
    refine List.Pairwise.imp_of_mem (fun {m n} hm hn hlt => ?_) List.pairwise_lt_range
    have hm' := toInt_ofInt_of_lt (List.mem_range.1 hm)
    have hn' := toInt_ofInt_of_lt (List.mem_range.1 hn)
    simp only [toInt_lt, hm', hn']
    omega

theorem same_sends {last i : Int64} (hpos : 0 < i) (hle : i ≤ last) : (same last).Sends i i := by
  rw [toInt_lt, Int64.toInt_zero] at hpos
  rw [Int64.le_iff_toInt_le] at hle
  refine List.mem_map.2 ⟨(i.toInt - 1).toNat, List.mem_range.2 (by omega), ?_⟩
  have hi : ((i.toInt - 1).toNat : Int) + 1 = i.toInt := by omega
  rw [hi, Int64.ofInt_toInt]

theorem same_below (last : Int64) : (same last).Below last last := by
  intro p hp
  obtain ⟨n, hn, rfl⟩ := List.mem_map.1 hp
  have hn' := toInt_ofInt_of_lt (List.mem_range.1 hn)
  have hlt := List.mem_range.1 hn
  simp only [Int64.le_iff_toInt_le, hn']
  omega

end Renaming

/-- With all its ids left as they are, a store holds the same as itself. -/
theorem MemoryStore.Orderly.alike_only {s : MemoryStore} (h : s.Orderly) (q : String) :
    Alike (Renaming.same s.lastId).forAll (s.only q).contents (s.only q).contents := by
  have hsends : ∀ {i : Int64}, s.Gave i → (Renaming.same s.lastId).Sends i i :=
    fun hi => Renaming.same_sends hi.1 hi.2
  refine ⟨rfl, List.forall₂_same.2 fun f hf => ?_, List.forall₂_same.2 fun x hx => ?_,
    List.forall₂_same.2 fun e he => ?_⟩
  · exact ⟨hsends (h.files f (List.mem_filter.1 hf).1), rfl⟩
  · have hx := (List.mem_filter.1 hx).1
    obtain ⟨f, hf, hid, -⟩ := h.whole.fact x hx
    exact ⟨hsends (h.facts x.id (List.mem_map_of_mem hx)), hid ▸ hsends (h.files f hf), rfl, rfl⟩
  · have he := (List.mem_filter.1 he).1
    obtain ⟨f, hf, hid, -⟩ := h.whole.edge e he
    refine ⟨hsends (h.edges e.id (List.mem_map_of_mem he)), rfl, hid ▸ hsends (h.files f hf), ?_, rfl, rfl, rfl, rfl⟩
    cases ht : e.targetFile with
    | none => exact .none
    | some t =>
      obtain ⟨g, hg, rfl, -⟩ := h.inward e he t ht
      exact .some (hsends (h.files g hg))

/-! ## One client among others -/

/-- The client of a repository among others, and one that has the store for itself. What their
stores hold of the repository is the same up to the renaming, and fewer ids were given out to the
one alone. -/
structure Follows (q : String) (ρ : Renaming) (w : Shared) (l : Client MemoryStore) : Prop where
  shared : ∀ r, (w.client r).Orderly
  alone : l.Orderly
  matched : Matched ρ ((w.client q).only q) (l.only q)
  behind : l.store.lastId.toInt ≤ w.store.lastId.toInt

/-- At first they are the same. -/
theorem Client.Orderly.follows {k : Client MemoryStore} (h : k.Orderly) (q : String) :
    Follows q (Renaming.same k.store.lastId) k.shared k where
  shared _ := h
  alone := h
  matched := by
    refine ⟨h.store.alike_only q, List.forall₂_same.2 fun f hf => ?_, Renaming.same_below _⟩
    obtain ⟨hpos, hle⟩ := (h.returned f hf).gave
    exact ⟨Renaming.same_sends hpos hle, rfl⟩
  behind := Int.le_refl _

namespace Shared

variable {w : Shared} {q r : String} {call : StoreCall}

theorem client_ask_self (w : Shared) (r : String) (call : StoreCall) :
    (w.ask r call).2.client r = ((w.client r).ask call).2 := by
  simp [ask, client]

theorem client_ask_of_ne (w : Shared) (hne : r ≠ q) (call : StoreCall) :
    (w.ask r call).2.client q = ⟨((w.client r).ask call).2.store, w.returned q⟩ := by
  simp [ask, client, hne.symm]

theorem later_ask (w : Shared) (r : String) (call : StoreCall)
    (hroom : w.store.lastId.toInt + call.records < Text.wordSize 63) :
    MemoryStore.Later call.records w.store (w.ask r call).2.store :=
  (w.client r).later_ask call hroom

/-- A fair call of one client leaves the files of all clients as they know them. -/
theorem orderly_ask (h : ∀ r, (w.client r).Orderly) (hfair : call.Fair (w.client r))
    (hroom : w.store.lastId.toInt + call.records < Text.wordSize 63) (q : String) :
    ((w.ask r call).2.client q).Orderly := by
  have horderly := (h r).ask hfair hroom
  by_cases hr : r = q
  · subst hr
    rw [client_ask_self]
    exact horderly
  · have hlater := (w.client r).later_ask call hroom
    rw [client_ask_of_ne w hr]
    exact ⟨horderly.store, fun f hf => hlater.remembers ((h q).returned f hf)⟩

end Shared

namespace Follows

variable {q r : String} {ρ : Renaming} {w : Shared} {l : Client MemoryStore} {call : StoreCall}

/-- A call of another client changes nothing. -/
theorem elsewhere (h : Follows q ρ w l) (hne : r ≠ q) (hfair : call.Fair (w.client r))
    (hon : call.On (w.client r) r)
    (hroom : w.store.lastId.toInt + call.records < Text.wordSize 63) :
    Follows q ρ (w.ask r call).2 l where
  shared := Shared.orderly_ask h.shared hfair hroom
  alone := h.alone
  matched := by
    have hsame := Client.ask_elsewhere (h.shared r) hne hon
    have hcounts := (w.later_ask r call hroom).counts
    rw [Shared.client_ask_of_ne w hne]
    refine ⟨?_, h.matched.returned, fun p hp => ?_⟩
    · simp only [Client.only, hsame]
      exact h.matched.alike
    · obtain ⟨hleft, hright⟩ := h.matched.below p hp
      refine ⟨?_, hright⟩
      rw [Int64.le_iff_toInt_le] at hleft ⊢
      exact Int.le_trans hleft hcounts.1
  behind := by
    have hcounts := (w.later_ask r call hroom).counts
    exact Int.le_trans h.behind hcounts.1

/-! ### Calls of the client itself -/

theorem given_only {k : Client MemoryStore} (h : k.Orderly) : (k.only q).Given where
  returned f hf := (h.returned f hf).gave
  facts x hx := by
    obtain ⟨f, hf, hid, -⟩ := h.store.whole.fact x (List.mem_filter.1 hx).1
    exact hid ▸ h.store.files f hf

theorem not_gave (h : Follows q ρ w l) {id : Int64} (hid : ¬ w.store.Gave id) :
    ¬ l.store.Gave id := by
  have hbehind := h.behind
  rw [MemoryStore.gave_iff] at hid ⊢
  omega

/-- What the client among others knows by a name, the one alone knows, too. -/
theorem known (h : Follows q ρ w l) {file : FileName} (hfile : file.Known (w.client q)) :
    file.Known l := by
  cases file with
  | returned n =>
    have hlength : (w.returned q).length = l.returned.length := h.matched.returned.length_eq
    exact Nat.lt_of_lt_of_eq hfile hlength
  | number id => exact h.not_gave hfile

theorem of (h : Follows q ρ w l) {file : FileName} (hfile : file.Of (w.client q) q) :
    file.Of l q := by
  cases file with
  | returned n =>
    obtain ⟨f, hf, hr⟩ := hfile
    obtain ⟨g, hg, hs⟩ := exists_of_getElem?_left h.matched.returned hf
    exact ⟨g, hg, by rw [← hs.file]; exact hr⟩
  | number id => exact h.not_gave hfile

theorem on (h : Follows q ρ w l) (hon : call.On (w.client q) q) : call.On l q := by
  cases call with
  | replaceFacts n facts es => exact ⟨h.of hon.1, fun e he => h.known (hon.2 e he)⟩
  | factsOfFile file => exact h.of hon
  | _ => exact hon

/-- A returned file of the repository that the one store holds, the other one holds, too. -/
theorem mem_filesOf (h : Follows q ρ w l) {f g : StoredFile} (hs : SameFile ρ.forAll f g)
    (hf : f ∈ w.store.filesOf q) : g ∈ l.store.filesOf q := by
  obtain ⟨x, hx, hsame⟩ := exists_of_mem_left h.matched.alike.files hf
  have hid : x.id = g.id := (hsame.id.eq_iff hs.id).1 rfl
  have hnew : x.toNewFile = g.toNewFile := hsame.file.symm.trans hs.file
  obtain ⟨new, id⟩ := x
  obtain ⟨new', id'⟩ := g
  obtain rfl : id = id' := hid
  obtain rfl : new = new' := hnew
  exact hx

theorem fair (h : Follows q ρ w l) (hfair : call.Fair (w.client q)) (hon : call.On (w.client q) q) :
    call.Fair l := by
  cases call with
  | replaceFacts n facts es =>
    obtain ⟨⟨f, hf, rfl⟩, -⟩ := hon
    obtain ⟨f', hf', htargets⟩ := hfair
    obtain rfl : f = f' := Option.some.inj (hf.symm.trans hf')
    have hof : (FileName.returned n).Of (w.client f.repository) f.repository := ⟨f, hf, rfl⟩
    obtain ⟨g, hg, hr⟩ := h.of hof
    refine ⟨g, hg, fun e he t ht => ?_⟩
    obtain ⟨x, hx, hget⟩ := htargets e he t ht
    obtain ⟨y, hy, hs⟩ := exists_of_getElem?_left h.matched.returned hget
    exact ⟨y, hr ▸ h.mem_filesOf hs hx, hy⟩
  | _ => trivial

/-- The call means the same to both. -/
theorem known_only {k : Client MemoryStore} (hfair : call.Fair k) (hon : call.On k q) :
    call.Known (k.only q) := by
  have hnames : ∀ file : FileName, file.Of k q → file.Known (k.only q) := by
    rintro (n | id) hof
    · obtain ⟨f, hf, -⟩ := hof
      exact (List.getElem?_eq_some_iff.1 hf).1
    · exact hof
  cases call with
  | replaceFacts n facts es =>
    obtain ⟨f, hf, htargets⟩ := hfair
    refine ⟨hnames _ hon.1, fun e he => ⟨hon.2 e he, fun t ht => ?_⟩⟩
    obtain ⟨g, -, hget⟩ := htargets e he t ht
    exact (List.getElem?_eq_some_iff.1 hget).1
  | factsOfFile file => exact hnames file hon
  | _ => trivial

/-- In its own turn the client is told what the one alone is told, and follows it again. -/
theorem own (h : Follows q ρ w l) (hfair : call.Fair (w.client q)) (hon : call.On (w.client q) q)
    (hroom : w.store.lastId.toInt + call.records < Text.wordSize 63) :
    ∃ ρ' : Renaming, ρ'.Extends ρ ∧ SameOutcome ρ' (w.ask q call).1 (l.ask call).1 ∧
      Follows q ρ' (w.ask q call).2 (l.ask call).2 := by
  have hbehind := h.behind
  have hfair' := h.fair hfair hon
  have hon' := h.on hon
  have hstep := h.matched.inStep (given_only (h.shared q)) (given_only h.alone)
    (known_only hfair hon) (known_only hfair' hon') hroom (by
      change l.store.lastId.toInt + _ < _
      omega)
  obtain ⟨⟨ρ', hextends, hsame, hmatched⟩, hcounts⟩ := hstep
  rw [Client.ask_only (h.shared q) hon, Client.ask_only h.alone hon'] at hsame hmatched hcounts
  have hgrown : (w.ask q call).2.store.lastId.toInt - w.store.lastId.toInt =
      (l.ask call).2.store.lastId.toInt - l.store.lastId.toInt := hcounts
  refine ⟨ρ', hextends, hsame, Shared.orderly_ask h.shared hfair hroom,
    h.alone.ask hfair' (by omega), ?_, by omega⟩
  rw [Shared.client_ask_self]
  exact hmatched

/-! ### Turns -/

/-- Through all turns the client is told what the one alone is told in its own. -/
theorem through (h : Follows q ρ w l) {turns : List (String × StoreCall)}
    (hfair : w.FairTurns turns)
    (hroom : w.store.lastId.toInt + (turns.map (fun t => t.2.records)).sum < Text.wordSize 63) :
    ∃ ρ' : Renaming, ρ'.Extends ρ ∧
      List.Forall₂ (SameOutcome ρ') (w.answersTo q turns) (l.answers (callsOf q turns)) ∧
      Follows q ρ' (w.after turns) (l.after (callsOf q turns)) := by
  induction turns generalizing ρ w l with
  | nil => exact ⟨ρ, .refl ρ, .nil, h⟩
  | cons turn rest ih =>
    obtain ⟨r, call⟩ := turn
    obtain ⟨hcall, hon, hrest⟩ := hfair
    simp only [List.map_cons, List.sum_cons] at hroom
    have hcounts := (w.later_ask r call (by omega)).counts
    by_cases hr : r = q
    · subst hr
      obtain ⟨ρ₁, hext₁, hsame, hfollows⟩ := h.own hcall hon (by omega)
      obtain ⟨ρ₂, hext₂, hsames, hend⟩ := ih hfollows hrest (by omega)
      have hcalls : callsOf r ((r, call) :: rest) = call :: callsOf r rest := by
        simp [callsOf]
      rw [hcalls, Shared.answersTo, if_pos rfl]
      exact ⟨ρ₂, hext₂.trans hext₁, .cons (hsame.extend hext₂) hsames, hend⟩
    · have hfollows := h.elsewhere hr hcall hon (by omega)
      obtain ⟨ρ', hext, hsames, hend⟩ := ih hfollows hrest (by omega)
      have hcalls : callsOf q ((r, call) :: rest) = callsOf q rest := by
        simp [callsOf, hr]
      rw [hcalls, Shared.answersTo, if_neg hr]
      exact ⟨ρ', hext, hsames, hend⟩

end Follows

/-- Calls for different repositories commute. After any fair calls, let clients make fair calls in
turns, each for its own repository. Then each of them is told what it is told when it makes its
calls alone, and the store holds the same of its repository, up to one renaming of the ids that
keeps their order and leaves those from before the turns as they are. The store must have ids for
all records of the calls. -/
theorem repositories_commute {history : List StoreCall}
    (hhistory : (Client.of MemoryStore.empty).FairCalls history) {k : Client MemoryStore}
    (hk : (Client.of MemoryStore.empty).after history = k) {turns : List (String × StoreCall)}
    (hturns : k.shared.FairTurns turns)
    (hroom : (history.map StoreCall.records).sum + (turns.map (fun t => t.2.records)).sum <
      Text.wordSize 63) (q : String) :
    ∃ ρ : Renaming, (∀ i, k.store.Gave i → ρ.Sends i i) ∧
      List.Forall₂ (SameOutcome ρ) (k.shared.answersTo q turns) (k.answers (callsOf q turns)) ∧
      SameOf ρ q (k.shared.after turns).store (k.after (callsOf q turns)).store := by
  have hzero : (Client.of MemoryStore.empty).store.lastId.toInt = 0 := rfl
  obtain ⟨horderly, hlast⟩ := Client.orderly_of_empty.after hhistory (by omega)
  rw [hk] at horderly hlast
  have hlow : k.shared.store.lastId.toInt ≤ (history.map StoreCall.records).sum := by
    change k.store.lastId.toInt ≤ _
    omega
  obtain ⟨ρ, hextends, hsame, hend⟩ := (horderly.follows q).through hturns (by omega)
  exact ⟨ρ, fun i hi => hextends i i (Renaming.same_sends hi.1 hi.2), hsame,
    hend.matched.alike.sameOf⟩

/-- Two repositories are made, and a file is stored for the one. -/
def sharedHistory : List StoreCall :=
  [.updateRepository "r" .empty, .updateRepository "s" .empty, .insertFiles [sampleFile "a.py"]]

/-- While a second file is stored for the one repository and gets its facts, files are stored for
the other one, which is deleted again. -/
def sharedTurns : List (String × StoreCall) :=
  [("s", .insertFiles [{ sampleFile "a.py" with repository := "s" }]),
    ("r", .insertFiles [sampleFile "b.py"]),
    ("s", .replaceFacts 1 [.bare "g" .function 1 1] []),
    ("r", .replaceFacts 1 [.bare "f" .function 1 1]
      [⟨"r", .returned 1, some 0, none, "import", ".a", 1⟩]),
    ("s", .deleteRepository "s"), ("r", .factsOfFile (.returned 1))]

theorem repositories_commute_in_turns :
    (Client.of MemoryStore.empty).FairCalls sharedHistory ∧
      ((Client.of MemoryStore.empty).after sharedHistory).shared.FairTurns sharedTurns ∧
      (sharedHistory.map StoreCall.records).sum +
        (sharedTurns.map (fun t => t.2.records)).sum < Text.wordSize 63 ∧
      ∃ ρ : Renaming, List.Forall₂ (SameOutcome ρ)
        (((Client.of MemoryStore.empty).after sharedHistory).shared.answersTo "r" sharedTurns)
        (((Client.of MemoryStore.empty).after sharedHistory).answers
          (callsOf "r" sharedTurns)) := by
  have hhistory : (Client.of MemoryStore.empty).FairCalls sharedHistory :=
    ⟨trivial, trivial, trivial, trivial⟩
  let first : StoredFile := ⟨sampleFile "a.py", 1⟩
  let other : StoredFile := ⟨{ sampleFile "a.py" with repository := "s" }, 2⟩
  let second : StoredFile := ⟨sampleFile "b.py", 3⟩
  have hturns :
      ((Client.of MemoryStore.empty).after sharedHistory).shared.FairTurns sharedTurns := by
    refine ⟨trivial, by simp [StoreCall.On], trivial, by simp [StoreCall.On, sampleFile],
      ⟨other, rfl, by simp⟩, ⟨⟨other, rfl, rfl⟩, by simp⟩, ⟨second, rfl, ?_⟩,
      ⟨⟨second, rfl, rfl⟩, ?_⟩, trivial, rfl, trivial, ⟨second, rfl, rfl⟩, trivial⟩
    · intro e he t ht
      rw [List.mem_singleton.1 he] at ht
      obtain rfl : 0 = t := Option.some.inj ht
      exact ⟨first, List.mem_cons_self, rfl⟩
    · intro e he
      rw [List.mem_singleton.1 he]
      exact Nat.one_lt_two
  have hroom : (sharedHistory.map StoreCall.records).sum +
      (sharedTurns.map (fun t => t.2.records)).sum < Text.wordSize 63 := by decide
  obtain ⟨ρ, -, hsame, -⟩ := repositories_commute hhistory rfl hturns hroom "r"
  exact ⟨hhistory, hturns, hroom, ρ, hsame⟩

end CodeSurvey
