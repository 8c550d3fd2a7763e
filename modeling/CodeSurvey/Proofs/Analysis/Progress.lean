-- The progress that an analysis reports. It never goes back and keeps to the stretch
-- of the stage that is at work; a stage that goes through ends at the end of its
-- stretch, whatever the numbers of files and the size of the batches are.
import CodeSurvey.Proofs.Analysis.Failing
import CodeSurvey.Proofs.Queue.Own
import CodeSurvey.Proofs.Store.Standing

namespace CodeSurvey

namespace Analyzer

/-! ## Part of a stretch -/

/-- A stretch of the progress, which is not longer than that of any stage. -/
structure Stretch (lo hi : Int64) : Prop where
  start : 0 ≤ lo.toInt
  rises : lo.toInt ≤ hi.toInt
  short : hi.toInt ≤ lo.toInt + 30
  top : hi.toInt ≤ 99

theorem filesStretch : Stretch discovered filesStored := by constructor <;> decide

theorem factsStretch : Stretch filesStored factsStored := by constructor <;> decide

namespace Stretch

variable {lo hi : Int64} {done done' all : Nat}

/-- The product fits its word. -/
theorem toInt_mul (h : Stretch lo hi) (hdone : done < 2 ^ 58) :
    ((hi - lo) * Int64.ofNat done).toInt = (hi.toInt - lo.toInt) * done := by
  obtain ⟨hstart, hrises, hshort, htop⟩ := h
  have hsub : (hi - lo).toInt = hi.toInt - lo.toInt := by
    rw [Int64.toInt_sub, Int.bmod_eq_of_le] <;> omega
  rw [Int64.toInt_mul, hsub, Int64.toInt_ofNat_of_lt (by omega)]
  have hle : (hi.toInt - lo.toInt) * done ≤ 30 * done :=
    Int.mul_le_mul_of_nonneg_right (by omega) (by omega)
  have hpos : 0 ≤ (hi.toInt - lo.toInt) * done := Int.mul_nonneg (by omega) (by omega)
  exact Int.bmod_eq_of_le (by omega) (by omega)

theorem part_mem (h : Stretch lo hi) (hpos : 0 < all) (hle : done ≤ all) :
    0 ≤ (hi.toInt - lo.toInt) * done / all ∧
      (hi.toInt - lo.toInt) * done / all ≤ hi.toInt - lo.toInt := by
  have hrises := h.rises
  constructor
  · exact Int.ediv_nonneg (Int.mul_nonneg (by omega) (by omega)) (by omega)
  · exact Int.ediv_le_of_le_mul (by omega) (Int.mul_le_mul_of_nonneg_left (by omega) (by omega))

/-- Nothing is lost in the words: the value is the part of the stretch, rounded down. -/
theorem toInt_scaled (h : Stretch lo hi) (hpos : 0 < all) (hle : done ≤ all) (hall : all < 2 ^ 58) :
    (scaled lo hi done all).toInt = lo.toInt + (hi.toInt - lo.toInt) * done / all := by
  have hmul := h.toInt_mul (Nat.lt_of_le_of_lt hle hall)
  have hofNat : (Int64.ofNat all).toInt = all := Int64.toInt_ofNat_of_lt (by omega)
  obtain ⟨hpart, hwhole⟩ := h.part_mem hpos hle
  obtain ⟨hstart, hrises, hshort, htop⟩ := h
  have hnonneg : 0 ≤ (hi.toInt - lo.toInt) * done := Int.mul_nonneg (by omega) (by omega)
  rw [scaled, if_neg (by omega), Int64.toInt_add, Int64.toInt_div, hmul, hofNat,
    Int.tdiv_eq_ediv_of_nonneg hnonneg, Int.bmod_eq_of_le (n := _ / _) (by omega) (by omega),
    Int.bmod_eq_of_le (by omega) (by omega)]

theorem scaled_mem (h : Stretch lo hi) (hpos : 0 < all) (hle : done ≤ all) (hall : all < 2 ^ 58) :
    lo ≤ scaled lo hi done all ∧ scaled lo hi done all ≤ hi := by
  have hpart := h.part_mem hpos hle
  rw [Int64.le_iff_toInt_le, Int64.le_iff_toInt_le, h.toInt_scaled hpos hle hall]
  omega

theorem scaled_mono (h : Stretch lo hi) (hdone : done ≤ done') (hpos : 0 < all) (hle : done' ≤ all)
    (hall : all < 2 ^ 58) : scaled lo hi done all ≤ scaled lo hi done' all := by
  have hrises := h.rises
  rw [Int64.le_iff_toInt_le, h.toInt_scaled hpos (Nat.le_trans hdone hle) hall,
    h.toInt_scaled hpos hle hall]
  refine Int.add_le_add_left (Int.ediv_le_ediv (by omega) ?_) _
  exact Int.mul_le_mul_of_nonneg_left (by omega) (by omega)

/-- When all is done, the end of the stretch is reached. -/
theorem scaled_all (h : Stretch lo hi) (hpos : 0 < all) (hall : all < 2 ^ 58) :
    scaled lo hi all all = hi := by
  rw [← Int64.toInt_inj, h.toInt_scaled hpos (Nat.le_refl all) hall,
    Int.mul_ediv_cancel _ (by omega)]
  omega

end Stretch

/-- There are batches of what there is. -/
theorem batches_ne_nil {α : Type} {size : Nat} {xs : List α} (h : xs ≠ []) :
    batches size xs ≠ [] := by
  intro hnil
  rw [← flatten_batches size xs, hnil] at h
  exact h rfl

/-! ## Values that climb -/

/-- The values keep to a stretch, and never go back. -/
structure Climbs (lo hi : Int64) (values : List Int64) : Prop where
  sorted : values.Pairwise (· ≤ ·)
  within : ∀ v ∈ values, lo ≤ v ∧ v ≤ hi

namespace Climbs

variable {lo mid hi v : Int64} {xs ys : List Int64}

theorem nil : Climbs lo hi [] := ⟨.nil, by simp⟩

theorem singleton (hlo : lo ≤ v) (hhi : v ≤ hi) : Climbs lo hi [v] :=
  ⟨List.pairwise_singleton _ _, by simp [hlo, hhi]⟩

theorem front (h : Climbs lo hi ys) (hfront : xs <+: ys) : Climbs lo hi xs :=
  ⟨h.sorted.sublist hfront.sublist, fun v hv => h.within v (hfront.subset hv)⟩

/-- One stretch behind another. -/
theorem append (h : Climbs lo mid xs) (h' : Climbs mid hi ys) (hlo : lo ≤ mid) (hhi : mid ≤ hi) :
    Climbs lo hi (xs ++ ys) := by
  constructor
  · refine List.pairwise_append.2 ⟨h.sorted, h'.sorted, fun v hv w hw => ?_⟩
    exact Int64.le_trans (h.within v hv).2 (h'.within w hw).1
  · intro v hv
    rcases List.mem_append.1 hv with hv | hv
    · exact ⟨(h.within v hv).1, Int64.le_trans (h.within v hv).2 hhi⟩
    · exact ⟨Int64.le_trans hlo (h'.within v hv).1, (h'.within v hv).2⟩

end Climbs

/-- How many items are done after each of the batches. -/
def tallies {α : Type} (done : Nat) : List (List α) → List Nat
  | [] => []
  | batch :: rest => (done + batch.length) :: tallies (done + batch.length) rest

section Tallies

variable {α : Type} {done n : Nat} {batches : List (List α)}

theorem of_mem_tallies (h : n ∈ tallies done batches) :
    done ≤ n ∧ n ≤ done + batches.flatten.length := by
  induction batches generalizing done with
  | nil => cases h
  | cons batch rest ih =>
    rw [List.flatten_cons, List.length_append]
    rcases List.mem_cons.1 h with rfl | h
    · omega
    · have := ih h
      omega

theorem tallies_sorted (done : Nat) (batches : List (List α)) :
    (tallies done batches).Pairwise (· ≤ ·) := by
  induction batches generalizing done with
  | nil => exact .nil
  | cons batch rest ih => exact .cons (fun n hn => (of_mem_tallies hn).1) (ih _)

theorem getLast?_tallies (done : Nat) (hne : batches ≠ []) :
    (tallies done batches).getLast? = some (done + batches.flatten.length) := by
  induction batches generalizing done with
  | nil => exact absurd rfl hne
  | cons batch rest ih =>
    rw [List.flatten_cons, List.length_append, ← Nat.add_assoc]
    cases rest with
    | nil => rfl
    | cons next rest =>
      rw [tallies, List.getLast?_cons, ih _ (by simp)]
      rfl

/-- The values after the batches of all that is to be done. -/
theorem Stretch.climbs {lo hi : Int64} (h : Stretch lo hi) {all : Nat}
    (hflat : done + batches.flatten.length ≤ all) (hpos : 0 < all) (hall : all < 2 ^ 58) :
    Climbs lo hi ((tallies done batches).map (scaled lo hi · all)) := by
  constructor
  · refine List.pairwise_map.2 ((tallies_sorted done batches).imp_of_mem fun {m n} _ hn hmn => ?_)
    exact h.scaled_mono hmn hpos (Nat.le_trans (of_mem_tallies hn).2 hflat) hall
  · intro v hv
    obtain ⟨n, hn, rfl⟩ := List.mem_map.1 hv
    exact h.scaled_mem hpos (Nat.le_trans (of_mem_tallies hn).2 hflat) hall

/-- The last of them is the end of the stretch. -/
theorem Stretch.getLast? {lo hi : Int64} (h : Stretch lo hi) {all : Nat}
    (hflat : done + batches.flatten.length = all) (hne : batches ≠ []) (hpos : 0 < all)
    (hall : all < 2 ^ 58) :
    ((tallies done batches).map (scaled lo hi · all)).getLast? = some hi := by
  rw [List.getLast?_map, getLast?_tallies done hne, hflat, Option.map_some, h.scaled_all hpos hall]

end Tallies

end Analyzer

/-! ## Reports of the stages -/

/-- The values that were reported on the way. -/
def Course.values {σ α : Type} (course : Course σ α) : List Int64 := course.reports.map (·.value)

namespace Reporting

variable {σ α β γ : Type}

/-- Work behind a piece that fails is not done. -/
theorem bind_of_error {x : Reporting σ α} {f : α → Reporting σ β} {s : σ} {e : Failure}
    (h : (x s).result = .error e) : (x >>= f) s = ⟨.error e, (x s).reports, (x s).state⟩ := by
  simp only [bind, andThen, h]

/-- Work that answers is made up of two pieces that answer. -/
theorem of_bind_ok {x : Reporting σ α} {f : α → Reporting σ β} {s : σ} {b : β}
    (h : ((x >>= f) s).result = .ok b) : ∃ a, (x s).result = .ok a ∧
      (f a (x s).state).result = .ok b ∧
      ((x >>= f) s).reports = (x s).reports ++ (f a (x s).state).reports := by
  cases hx : (x s).result with
  | error e =>
    rw [bind_of_error hx] at h
    cases h
  | ok a =>
    rw [bind_of_ok hx] at h ⊢
    exact ⟨a, rfl, h, rfl⟩

theorem report_bind (value : Int64) (extra : Option Json) (f : Unit → Reporting σ β) (s : σ) :
    (report value extra >>= f) s =
      ⟨(f () s).result, ⟨value, extra⟩ :: (f () s).reports, (f () s).state⟩ := rfl

theorem run_bind_cases (c : Command σ α) (f : α → Reporting σ β) (s : σ) :
    (∃ e, (run c >>= f) s = ⟨.error e, [], (c s).2⟩) ∨
      ∃ a, (c s).1 = .ok a ∧ (run c >>= f) s = f a (c s).2 := by
  cases hc : (c s).1 with
  | error e => exact .inl ⟨e, bind_of_error hc⟩
  | ok a => exact .inr ⟨a, rfl, bind_of_ok hc⟩

theorem bind_pure_eq (x : Reporting σ α) (g : α → β) (s : σ) :
    (x >>= fun a => pure (g a)) s = ⟨(x s).result.map g, (x s).reports, (x s).state⟩ := by
  cases hx : (x s).result with
  | error e => exact bind_of_error hx
  | ok a => rw [bind_of_ok hx, show (pure (g a) : Reporting σ β) = answer (g a) from rfl, answer,
      List.append_nil, Except.map]

theorem bind_assoc (x : Reporting σ α) (f : α → Reporting σ β) (g : β → Reporting σ γ) :
    x >>= f >>= g = x >>= fun a => f a >>= g := by
  funext s
  cases hx : (x s).result with
  | error e =>
    have hxf : ((x >>= f) s).result = .error e := by rw [bind_of_error hx]
    rw [bind_of_error hxf, bind_of_error hx, bind_of_error hx]
  | ok a =>
    rw [bind_of_ok hx]
    cases hf : (f a (x s).state).result with
    | error e =>
      have hxf : ((x >>= f) s).result = .error e := by rw [bind_of_ok hx, hf]
      rw [bind_of_error hxf, bind_of_ok hx, bind_of_error hf]
    | ok b =>
      have hxf : ((x >>= f) s).result = .ok b := by rw [bind_of_ok hx, hf]
      rw [bind_of_ok hxf, bind_of_ok hx, bind_of_ok hf, List.append_assoc]

end Reporting

/-- A store that answers with a file for each that it stores. -/
class AnswersEach (σ : Type) [Storage σ] : Prop where
  length_insertFiles {new : List NewFile} {s : σ} {stored : List StoredFile} :
    (Storage.insertFiles new s).1 = .ok stored → stored.length = new.length

instance : AnswersEach MemoryStore where
  length_insertFiles {new s stored} h := by
    rcases s.insertFiles_cases new with ⟨e, hrun, -⟩ | ⟨xs, id, hrun, -, hnew, -⟩
    · rw [show Storage.insertFiles new s = _ from hrun] at h
      cases h
    · rw [show Storage.insertFiles new s = _ from hrun] at h
      obtain rfl := Except.ok.inj h
      rw [← hnew, List.length_map]

/-- There is an answer for each item. -/
theorem Command.length_collect {σ α β : Type} {f : α → Command σ β} {xs : List α} {ys : List β}
    {s s' : σ} (h : collect f xs s = (.ok ys, s')) : ys.length = xs.length := by
  induction xs generalizing ys s s' with
  | nil =>
    obtain rfl := Except.ok.inj (Prod.mk.inj h).1
    rfl
  | cons x xs ih =>
    obtain ⟨y, mid, -, hrest⟩ := of_andThen_ok h
    obtain ⟨others, mid', hothers, hanswer⟩ := of_andThen_ok hrest
    obtain rfl := Except.ok.inj (Prod.mk.inj hanswer).1
    rw [List.length_cons, List.length_cons, ih hothers]

instance : AnswersEach Relational.Database where
  length_insertFiles h :=
    Command.length_collect (Relational.Database.transaction_answered (Prod.ext h rfl))

/-- Calls that fail answer nothing. -/
instance {σ : Type} [Storage σ] [AnswersEach σ] : AnswersEach (Faulty σ) where
  length_insertFiles h :=
    AnswersEach.length_insertFiles (congrArg Prod.fst (Faulty.call_ok (Prod.ext h rfl)))

namespace Analyzer

variable {σ : Type} [Storage σ]

theorem ok_of_map {α β : Type} {x : Except Failure α} {g : α → β} {b : β} (h : x.map g = .ok b) :
    ∃ a, x = .ok a ∧ g a = b := by
  cases x with
  | error e => cases h
  | ok a => exact ⟨a, rfl, Except.ok.inj h⟩

/-! ### Files -/

theorem storeBatches_of_error {repository : String} {batch : List FoundFile} {s s' : Site σ}
    {e : Failure} (h : storeBatch repository batch s = (.error e, s')) (all done count : Nat)
    (rest : List (List FoundFile)) :
    storeBatches repository all done count (batch :: rest) s = ⟨.error e, [], s'⟩ := by
  rw [storeBatches, Reporting.bind_of_error (by rw [Reporting.run, h]), Reporting.run, h]

/-- What is reported when a batch is stored stands in front of the reports on the others. -/
theorem storeBatches_of_ok {repository : String} {batch : List FoundFile} {s s' : Site σ}
    {new : List StoredFile} (h : storeBatch repository batch s = (.ok new, s'))
    (all done count : Nat) (rest : List (List FoundFile)) :
    let others := storeBatches repository all (done + batch.length) (count + new.length) rest s'
    storeBatches repository all done count (batch :: rest) s =
      ⟨others.result.map (new ++ ·),
        ⟨scaled discovered filesStored (done + batch.length) all,
          some (.record [("files_persisted", Json.nat (count + new.length))])⟩ :: others.reports,
        others.state⟩ := by
  intro others
  have hothers := Reporting.bind_pure_eq
    (storeBatches repository all (done + batch.length) (count + new.length) rest) (new ++ ·) s'
  rw [storeBatches, Reporting.bind_of_ok (by rw [Reporting.run, h]), Reporting.run, h]
  simp only [Reporting.report_bind, hothers, List.nil_append]
  rfl

/-- Storing files batch by batch reports how many are done after each, up to a failure. -/
theorem values_storeBatches (repository : String) (all done count : Nat)
    (batches : List (List FoundFile)) (s : Site σ) :
    let course := storeBatches repository all done count batches s
    let values := (tallies done batches).map (scaled discovered filesStored · all)
    course.values <+: values ∧ ∀ stored, course.result = .ok stored → course.values = values := by
  induction batches generalizing done count s with
  | nil => exact ⟨List.prefix_refl _, fun _ _ => rfl⟩
  | cons batch rest ih =>
    intro course values
    cases hbatch : storeBatch repository batch s with
    | mk r s' =>
      cases r with
      | error e =>
        have hcourse : course = _ := storeBatches_of_error hbatch all done count rest
        rw [hcourse]
        exact ⟨List.nil_prefix, fun _ h => nomatch h⟩
      | ok new =>
        have hcourse : course = _ := storeBatches_of_ok hbatch all done count rest
        obtain ⟨hfront, hdone⟩ := ih (done + batch.length) (count + new.length) s'
        rw [hcourse]
        refine ⟨List.cons_prefix_cons.2 ⟨rfl, hfront⟩, fun stored h => ?_⟩
        obtain ⟨xs, hxs, -⟩ := ok_of_map h
        exact congrArg (_ :: ·) (hdone xs hxs)

section Storing

variable [AnswersEach σ]

theorem length_storeBatch {repository : String} {files : List FoundFile} {s s' : Site σ}
    {stored : List StoredFile} (h : storeBatch repository files s = (.ok stored, s')) :
    stored.length ≤ files.length := by
  have hle := List.length_filterMap_le (newFile? repository s.disk) files
  unfold storeBatch at h
  split at h
  · obtain rfl := Except.ok.inj (Prod.mk.inj h).1
    exact Nat.zero_le _
  · rw [AnswersEach.length_insertFiles (Prod.mk.inj h).1]
    exact hle

theorem length_storeBatches {repository : String} {all done count : Nat}
    {batches : List (List FoundFile)} {s : Site σ} {stored : List StoredFile}
    (h : (storeBatches repository all done count batches s).result = .ok stored) :
    stored.length ≤ batches.flatten.length := by
  induction batches generalizing done count s stored with
  | nil =>
    obtain rfl := Except.ok.inj h
    exact Nat.le_refl _
  | cons batch rest ih =>
    cases hbatch : storeBatch repository batch s with
    | mk r s' =>
      cases r with
      | error e =>
        rw [storeBatches_of_error hbatch] at h
        cases h
      | ok new =>
        rw [storeBatches_of_ok hbatch] at h
        obtain ⟨xs, hxs, rfl⟩ := ok_of_map h
        have hfirst := length_storeBatch hbatch
        have hrest := ih hxs
        simp only [List.length_append, List.flatten_cons]
        omega

/-- The values on the files keep to their stretch, and reach its end when all are stored. -/
theorem values_storeFiles (a : Analyzer) (repository : String) {files : List FoundFile}
    (hfew : files.length < 2 ^ 58) (s : Site σ) :
    let course := a.storeFiles repository files s
    Climbs discovered filesStored course.values ∧ ∀ stored, course.result = .ok stored →
      course.values.getLast? = some filesStored ∧ stored.length ≤ files.length := by
  unfold storeFiles
  split
  · rename_i hnil
    subst hnil
    refine ⟨Climbs.singleton (by decide) (by decide), fun stored h => ?_⟩
    obtain rfl := Except.ok.inj h
    exact ⟨rfl, Nat.le_refl _⟩
  · rename_i hfiles
    have hpos : 0 < files.length := List.length_pos_iff.2 hfiles
    have hflat := flatten_batches a.batchSize files
    have hne : batches a.batchSize files ≠ [] := batches_ne_nil hfiles
    obtain ⟨hfront, hdone⟩ :=
      values_storeBatches repository files.length 0 0 (batches a.batchSize files) s
    have hall : 0 + (batches a.batchSize files).flatten.length = files.length := by
      rw [hflat, Nat.zero_add]
    refine ⟨(filesStretch.climbs (Nat.le_of_eq hall) hpos hfew).front hfront, fun stored h => ?_⟩
    have hle := length_storeBatches h
    rw [hflat] at hle
    exact ⟨hdone stored h ▸ filesStretch.getLast? hall hne hpos hfew, hle⟩

end Storing

/-! ### Facts -/

/-- What is reported when the facts of a batch are stored stands in front of the reports on the
others. -/
theorem factsBatches_cons (a : Analyzer) (all done : Nat) (t : FactTotals)
    (failure : Option Failure) (batch : List StoredFile) (rest : List (List StoredFile))
    (s : Site σ) :
    ∃ outcomes s', a.factsBatch batch s = (.ok outcomes, s') ∧ outcomes.length = batch.length ∧
      let told := outcomes.foldl FactTotals.add t
      let others := a.factsBatches all (done + batch.length) told
        (failure.or (outcomes.findSome? (·.failure))) rest s'
      a.factsBatches all done t failure (batch :: rest) s =
        ⟨others.result, ⟨scaled filesStored factsStored (done + batch.length) all,
          some told.told⟩ :: others.reports, others.state⟩ := by
  have hrun : a.factsBatch batch s = (.ok _, _) := rfl
  refine ⟨_, _, hrun, List.length_map _, ?_⟩
  rw [factsBatches, Reporting.bind_of_ok (by rw [Reporting.run, hrun]), Reporting.run, hrun]
  simp only [Reporting.report_bind, List.length_map, List.nil_append]

/-- Storing facts batch by batch reports how many files are done after each. -/
theorem values_factsBatches (a : Analyzer) (all done : Nat) (t : FactTotals)
    (failure : Option Failure) (batches : List (List StoredFile)) (s : Site σ) :
    let course := a.factsBatches all done t failure batches s
    (∃ failed, course.result = .ok failed) ∧
      course.values = (tallies done batches).map (scaled filesStored factsStored · all) := by
  induction batches generalizing done t failure s with
  | nil => exact ⟨⟨failure, rfl⟩, rfl⟩
  | cons batch rest ih =>
    intro course
    obtain ⟨outcomes, s', -, -, hcourse⟩ := a.factsBatches_cons all done t failure batch rest s
    obtain ⟨hresult, hvalues⟩ := ih (done + batch.length) (outcomes.foldl FactTotals.add t)
      (failure.or (outcomes.findSome? (·.failure))) s'
    rw [show course = _ from hcourse]
    exact ⟨hresult, congrArg (_ :: ·) hvalues⟩

theorem storeFactsOf_of_nil (a : Analyzer) {stored : List StoredFile}
    (h : stored.filter (fun f => a.registry.supports f.extension) = []) (s : Site σ) :
    a.storeFactsOf stored s = ⟨.ok (), [⟨factsStored, none⟩], s⟩ := congrFun (if_pos h) s

/-- Where some surveyor takes files, the stage on the facts is what comes of their batches. -/
theorem storeFactsOf_eq (a : Analyzer) (stored : List StoredFile) (s : Site σ) :
    let readable := stored.filter (fun f => a.registry.supports f.extension)
    let course := a.factsBatches readable.length 0 .zero none (batches a.batchSize readable) s
    readable ≠ [] → ∃ failed, course.result = .ok failed ∧
      a.storeFactsOf stored s = ⟨match failed with
        | some f => .error (.storage f.message)
        | none => .ok (), course.reports, course.state⟩ := by
  intro readable course hne
  obtain ⟨⟨failed, hresult⟩, -⟩ :=
    a.values_factsBatches readable.length 0 .zero none (batches a.batchSize readable) s
  refine ⟨failed, hresult, ?_⟩
  have hstage : a.storeFactsOf stored s = (a.factsBatches readable.length 0 .zero none
      (batches a.batchSize readable) >>= fun failure => match failure with
        | some f => Reporting.fail (.storage f.message)
        | none => pure ()) s := congrFun (if_neg hne) s
  rw [hstage, Reporting.bind_of_ok hresult]
  cases failed <;> exact congrArg (Course.mk _ · _) (List.append_nil _)

/-- The values on the facts keep to their stretch and reach its end, whatever the store refuses. -/
theorem values_storeFactsOf (a : Analyzer) {stored : List StoredFile}
    (hfew : stored.length < 2 ^ 58) (s : Site σ) :
    let course := a.storeFactsOf stored s
    Climbs filesStored factsStored course.values ∧
      course.values.getLast? = some factsStored := by
  intro course
  have heq := a.storeFactsOf_eq stored s
  have hle := List.length_filter_le (fun f => a.registry.supports f.extension) stored
  have hnil := fun h : stored.filter (fun f => a.registry.supports f.extension) = [] =>
    a.storeFactsOf_of_nil h s
  generalize stored.filter (fun f => a.registry.supports f.extension) = readable at heq hle hnil
  by_cases hreadable : readable = []
  · rw [show course = _ from hnil hreadable]
    exact ⟨Climbs.singleton (by decide) (by decide), rfl⟩
  · obtain ⟨failed, -, hcourse⟩ := heq hreadable
    obtain ⟨-, hvalues⟩ :=
      a.values_factsBatches readable.length 0 .zero none (batches a.batchSize readable) s
    have hpos : 0 < readable.length := List.length_pos_iff.2 hreadable
    have hall : 0 + (batches a.batchSize readable).flatten.length = readable.length := by
      rw [flatten_batches, Nat.zero_add]
    have hfew' : readable.length < 2 ^ 58 := Nat.lt_of_le_of_lt hle hfew
    rw [show course = _ from hcourse]
    have hclimbs := factsStretch.climbs (Nat.le_of_eq hall) hpos hfew'
    have hlast := factsStretch.getLast? hall (batches_ne_nil hreadable) hpos hfew'
    rw [← hvalues] at hclimbs hlast
    exact ⟨hclimbs, hlast⟩

/-! ## The stages together -/

/-- The first stage of an analysis brings the files to a directory. -/
def prepare (a : Analyzer) (repository : String) (payload : Json) : Reporting (Site σ) String := do
  let _ ← Reporting.run (Site.onStore (Storage.updateRepository repository (.toStatus .processing)))
  let source ← Reporting.run (.ask (fun _ => sourceOf payload))
  Reporting.run (Site.onDisk (a.materialize repository source))

/-- The third stage stores the files that were found in the place of those stored before. -/
def placeFiles (a : Analyzer) (repository : String) (found : Discovered) :
    Reporting (Site σ) (List StoredFile) := do
  let _ ← Reporting.run (Site.onStore (Storage.clearFiles repository))
  a.storeFiles repository found.files

/-- The stages behind the discovery of the files. -/
def keepFound (a : Analyzer) (repository path : String) (found : Discovered) :
    Reporting (Site σ) Repository := do
  let stored ← a.placeFiles repository found
  a.storeFactsOf stored
  Reporting.run (Site.onStore (Storage.updateRepository repository (completion path found.totals)))

theorem survey_eq (a : Analyzer) (repository : String) (payload : Json) :
    (a.survey repository payload : Reporting (Site σ) Repository) = (do
      let path ← a.prepare repository payload
      Reporting.report materialized (some (.record [("storage_path", .text path)]))
      let found ← Reporting.run (.ask (fun s => discover a.discovery path s.disk))
      Reporting.report discovered
        (some (.record [("files_discovered", Json.nat found.files.length)]))
      a.keepFound repository path found) := by
  unfold survey prepare keepFound placeFiles
  simp only [Reporting.bind_assoc]

/-- The first stage reports nothing, and brings the files of the source to the directory. -/
theorem prepare_goes (a : Analyzer) (job : Job) (s : Site σ) :
    let prepared := a.prepare job.repository job.data s
    prepared.reports = [] ∧ ∀ path, prepared.result = .ok path → ∃ source,
      sourceOf job.data = .ok source ∧
        a.materialize job.repository source s.disk = (.ok path, prepared.state.disk) := by
  intro prepared
  rcases Reporting.run_bind_cases (Site.onStore (Storage.updateRepository job.repository
    (.toStatus .processing))) (fun _ => Reporting.run (.ask (fun _ => sourceOf job.data)) >>=
      fun source => Reporting.run (Site.onDisk (a.materialize job.repository source))) s with
    ⟨e, hrun⟩ | ⟨r, -, hrun⟩
  · rw [show prepared = _ from hrun]
    exact ⟨rfl, fun _ h => nomatch h⟩
  rw [show prepared = _ from hrun]
  rcases Reporting.run_bind_cases (.ask (fun _ => sourceOf job.data))
    (fun source => Reporting.run (Site.onDisk (a.materialize job.repository source)))
    (Site.onStore (Storage.updateRepository job.repository (.toStatus .processing)) s).2 with
    ⟨e, hrun⟩ | ⟨source, hsource, hrun⟩
  · rw [hrun]
    exact ⟨rfl, fun _ h => nomatch h⟩
  · rw [hrun]
    exact ⟨rfl, fun path h => ⟨source, hsource, Prod.ext h rfl⟩⟩

/-- The third stage reports what storing the files reports, if it comes to that. -/
theorem values_placeFiles [AnswersEach σ] (a : Analyzer) (repository : String) {found : Discovered}
    (hfew : found.files.length < 2 ^ 58) (s : Site σ) :
    let course := a.placeFiles repository found s
    Climbs discovered filesStored course.values ∧ ∀ stored, course.result = .ok stored →
      course.values.getLast? = some filesStored ∧ stored.length < 2 ^ 58 := by
  intro course
  rcases Reporting.run_bind_cases (Site.onStore (Storage.clearFiles repository))
    (fun _ => a.storeFiles repository found.files) s with ⟨e, hrun⟩ | ⟨n, -, hrun⟩
  · rw [show course = _ from hrun]
    exact ⟨.nil, fun _ h => nomatch h⟩
  · rw [show course = _ from hrun]
    obtain ⟨hclimbs, hdone⟩ := a.values_storeFiles repository hfew
      (Site.onStore (Storage.clearFiles repository) s).2
    exact ⟨hclimbs, fun stored h => ⟨(hdone stored h).1, Nat.lt_of_le_of_lt (hdone stored h).2 hfew⟩⟩

/-- Behind the discovery, the values on the files come first and then those on the facts. -/
theorem values_keepFound [AnswersEach σ] (a : Analyzer) (repository path : String)
    {found : Discovered} (hfew : found.files.length < 2 ^ 58) (s : Site σ) :
    let placed := a.placeFiles repository found s
    ∃ onFiles onFacts, (a.keepFound repository path found s).values = onFiles ++ onFacts ∧
      Climbs discovered filesStored onFiles ∧ Climbs filesStored factsStored onFacts ∧
      (∀ e, placed.result = .error e → onFacts = []) ∧
      ∀ stored, placed.result = .ok stored →
        onFiles.getLast? = some filesStored ∧ onFacts.getLast? = some factsStored := by
  intro placed
  obtain ⟨hclimbs, hdone⟩ := a.values_placeFiles repository hfew s
  unfold keepFound
  cases hplaced : placed.result with
  | error e =>
    refine ⟨placed.values, [], ?_, hclimbs, .nil, fun _ _ => rfl, fun _ h => nomatch h⟩
    rw [Reporting.bind_of_error hplaced, List.append_nil]
    rfl
  | ok stored =>
    obtain ⟨hlast, hfewer⟩ := hdone stored hplaced
    obtain ⟨hfacts, hlastFact⟩ := a.values_storeFactsOf hfewer placed.state
    refine ⟨placed.values, (a.storeFactsOf stored placed.state).values, ?_, hclimbs, hfacts,
      (fun _ h => nomatch h), fun _ _ => ⟨hlast, hlastFact⟩⟩
    rw [Reporting.bind_of_ok hplaced]
    -- the update of the record at the end reports nothing
    cases hresult : (a.storeFactsOf stored placed.state).result with
    | error e =>
      rw [Reporting.bind_of_error hresult]
      exact List.map_append
    | ok _ =>
      rw [Reporting.bind_of_ok hresult]
      simp [Course.values, Reporting.run, placed]

/-- The handler of a job reports what its analysis reports. -/
theorem reports_handler (a : Analyzer) (job : Job) (s : Site σ) :
    (a.handler job s).1.reports = (a.survey job.repository job.data s).reports := by
  have hreports : (a.handler job s).1.reports = (a.analyze job.repository job.data s).reports :=
    Work.reports_ofReports _ _
  rw [hreports, analyze]
  split <;> rfl

/-- How the values on the way are made up of those of the stages. -/
theorem values_handler (a : Analyzer) (job : Job) (s : Site σ) :
    let values := (a.handler job s).1.reports.map (·.value)
    let prepared := a.prepare job.repository job.data s
    (∀ e, prepared.result = .error e → values = []) ∧
    ∀ path, prepared.result = .ok path →
      (∀ e, discover a.discovery path prepared.state.disk = .error e → values = [materialized]) ∧
      ∀ found, discover a.discovery path prepared.state.disk = .ok found →
        values = materialized :: discovered ::
          (a.keepFound job.repository path found prepared.state).values := by
  intro values prepared
  have hquiet : prepared.reports = [] := (a.prepare_goes job s).1
  have hvalues : values = (a.survey job.repository job.data s).values :=
    congrArg (List.map _) (a.reports_handler job s)
  rw [hvalues, a.survey_eq]
  refine ⟨fun e he => ?_, fun path hpath => ?_⟩
  · rw [Reporting.bind_of_error he, Course.values, hquiet]
    rfl
  · rw [Reporting.bind_of_ok hpath, Course.values, hquiet, List.nil_append, Reporting.report_bind]
    refine ⟨fun e he => ?_, fun found hfound => ?_⟩
    · rw [Reporting.bind_of_error he]
      rfl
    · rw [Reporting.bind_of_ok hfound]
      rfl

/-- The progress of an analysis climbs by stages. Whatever job, disk and store it is given, however
many of the files can be read or are taken by a surveyor, whatever the size of the batches, and
whatever the store refuses: all values that its handler reports are between 30 and 95 and never go
back. Nothing is reported before the files are there, then 30, and then 40 when they are discovered;
the values on storing them are between 40 and 70, the last of them 70 when all are stored; and only
then come the values on the facts, between 70 and 95, the last of them 95. There must be fewer than
`2 ^ 58` files; no product on the way overflows its word then, and each value is the part of its
stretch that is done, rounded down. -/
theorem progress_climbs_by_stages [AnswersEach σ] (a : Analyzer) (job : Job) (s : Site σ)
    (hfew : ∀ disk found, a.Finds job s.disk disk found → found.files.length < 2 ^ 58) :
    let values := (a.handler job s).1.reports.map (·.value)
    let prepared := a.prepare job.repository job.data s
    Climbs 30 95 values ∧
    (∀ e, prepared.result = .error e → values = []) ∧
    (∀ path, prepared.result = .ok path →
      (∀ e, discover a.discovery path prepared.state.disk = .error e → values = [30]) ∧
      ∀ found, discover a.discovery path prepared.state.disk = .ok found →
        let placed := a.placeFiles job.repository found prepared.state
        ∃ onFiles onFacts, values = 30 :: 40 :: (onFiles ++ onFacts) ∧
          Climbs 40 70 onFiles ∧ Climbs 70 95 onFacts ∧
          (∀ e, placed.result = .error e → onFacts = []) ∧
          ∀ stored, placed.result = .ok stored →
            onFiles.getLast? = some 70 ∧ onFacts.getLast? = some 95) ∧
    ∀ done all : Nat, done ≤ all → 0 < all → all < 2 ^ 58 →
      ((70 - 40) * Int64.ofNat done).toInt = 30 * done ∧
      ((95 - 70) * Int64.ofNat done).toInt = 25 * done ∧
      (scaled discovered filesStored done all).toInt = 40 + 30 * done / all ∧
      (scaled filesStored factsStored done all).toInt = 70 + 25 * done / all := by
  intro values prepared
  obtain ⟨hnone, hsome⟩ := a.values_handler job s
  have hfound : ∀ path, prepared.result = .ok path → ∀ found,
      discover a.discovery path prepared.state.disk = .ok found → found.files.length < 2 ^ 58 := by
    intro path hpath found hdiscovered
    obtain ⟨source, hsource, hmaterialize⟩ := (a.prepare_goes job s).2 path hpath
    exact hfew _ found ⟨source, path, hsource, hmaterialize, hdiscovered⟩
  refine ⟨?_, hnone, fun path hpath => ⟨(hsome path hpath).1, fun found hdiscovered => ?_⟩, ?_⟩
  · cases hprepared : prepared.result with
    | error e =>
      rw [show values = [] from hnone e hprepared]
      exact .nil
    | ok path =>
      obtain ⟨hfailed, hgone⟩ := hsome path hprepared
      cases hdiscovered : discover a.discovery path prepared.state.disk with
      | error e =>
        rw [show values = [materialized] from hfailed e hdiscovered]
        exact .singleton (by decide) (by decide)
      | ok found =>
        obtain ⟨onFiles, onFacts, hvalues, hfiles, hfacts, -⟩ := a.values_keepFound job.repository
          path (hfound path hprepared found hdiscovered) prepared.state
        have hprepares : Climbs 30 30 [30] := .singleton (by decide) (by decide)
        have hdiscovers : Climbs 30 40 [40] := .singleton (by decide) (by decide)
        have hbegun : Climbs 30 40 [30, 40] := hprepares.append hdiscovers (by decide) (by decide)
        rw [show values = _ from hgone found hdiscovered, hvalues]
        exact hbegun.append (hfiles.append hfacts (by decide) (by decide)) (by decide) (by decide)
  · obtain ⟨onFiles, onFacts, hvalues, hrest⟩ := a.values_keepFound job.repository
      path (hfound path hpath found hdiscovered) prepared.state
    exact ⟨onFiles, onFacts, hvalues ▸ (hsome path hpath).2 found hdiscovered, hrest⟩
  · intro done all hle hpos hall
    have hdone := Nat.lt_of_le_of_lt hle hall
    exact ⟨filesStretch.toInt_mul hdone, factsStretch.toInt_mul hdone,
      filesStretch.toInt_scaled hpos hle hall, factsStretch.toInt_scaled hpos hle hall⟩

/-- The small analysis discovers its files, so 30 and 40 are reported first. -/
theorem progress_climbs_by_stages_of_two_files :
    let values := (Small.analyzer.handler Small.job
      ⟨Small.disk, MemoryStore.empty⟩).1.reports.map (·.value)
    Climbs 30 95 values ∧ ∃ onFiles onFacts, values = 30 :: 40 :: (onFiles ++ onFacts) ∧
      Climbs 40 70 onFiles ∧ Climbs 70 95 onFacts := by
  obtain ⟨hclimbs, -, hstages, -⟩ := progress_climbs_by_stages Small.analyzer Small.job
    ⟨Small.disk, MemoryStore.empty⟩ (fun disk found h => by
      obtain ⟨rfl, rfl⟩ := Small.finds.unique h
      decide +kernel)
  have hprepared : (Small.analyzer.prepare Small.job.repository Small.job.data
      ⟨Small.disk, MemoryStore.empty⟩).result = .ok "/" := by decide +kernel
  obtain ⟨source, path, hsource, hpath, hfound⟩ := Small.finds
  obtain rfl : "/" = path := Except.ok.inj (Prod.mk.inj hpath).1
  obtain ⟨onFiles, onFacts, hvalues, hfiles, hfacts, -⟩ := (hstages "/" hprepared).2 _ hfound
  exact ⟨hclimbs, onFiles, onFacts, hvalues, hfiles, hfacts⟩

end Analyzer

end CodeSurvey
