import RSpark.Executor
import RSpark.Listing

/- What the stages of the executor do to the rows of their input. -/
namespace RSparkStages
open RSparkValue RSparkBatch RSparkExpr RSparkPlan RSparkOperators RSparkExecutor Listing

section Distinct

theorem mem_distinctRecords {seen : List String} {records : List Record} :
    ∀ r ∈ distinctRecords seen records, r ∈ records := by
  induction records generalizing seen with
  | nil => exact fun r mem => mem
  | cons first rest ih =>
    intro r mem
    rw [distinctRecords] at mem
    split at mem
    · exact List.mem_cons_of_mem _ (ih r mem)
    · rcases List.mem_cons.mp mem with rfl | later
      · exact List.mem_cons_self
      · exact List.mem_cons_of_mem _ (ih r later)

theorem distinctRecords_unseen {seen : List String} {records : List Record}
    (apart : ∀ a ∈ records, ∀ b ∈ records, distinctKey a = distinctKey b → a = b) :
    distinctRecords seen records =
      (firsts records).filter fun r => distinctKey r ∉ seen := by
  induction records generalizing seen with
  | nil => rfl
  | cons r rest ih =>
    have later := fun a memA b memB =>
      apart a (List.mem_cons_of_mem r memA) b (List.mem_cons_of_mem r memB)
    rw [distinctRecords, firsts]
    split
    · rename_i old
      rw [ih later, List.filter_cons_of_neg (by simpa using old), List.filter_filter]
      refine List.filter_congr fun a _ => ?_
      have other (new : distinctKey a ∉ seen) : a ≠ r := by
        rintro rfl
        exact new old
      by_cases new : distinctKey a ∈ seen
      · simp [new]
      · simp [new, other new]
    · rename_i new
      rw [ih later, List.filter_cons_of_pos (by simpa using new), List.filter_filter]
      congr 1
      refine List.filter_congr fun a mem => ?_
      have same : distinctKey a = distinctKey r ↔ a = r :=
        ⟨apart a (List.mem_cons_of_mem r (mem_firsts.mp mem)) r List.mem_cons_self,
          fun same => congrArg distinctKey same⟩
      simp [same, Bool.and_comm]

theorem distinctRecords_eq {records : List Record}
    (apart : ∀ a ∈ records, ∀ b ∈ records, distinctKey a = distinctKey b → a = b) :
    distinctRecords [] records = firsts records := by
  rw [distinctRecords_unseen apart, List.filter_eq_self]
  intro r _
  exact by simp

end Distinct

section Projection

theorem single_star {expressions : List Expr}
    (star : expressions.any isStar ∧ expressions.length = 1) : expressions = [.star] := by
  obtain ⟨any, count⟩ := star
  obtain ⟨expr, rfl⟩ := List.length_eq_one_iff.mp count
  have isStar : isStar expr = true := by simpa using any
  cases expr with
  | star => rfl
  | _ => exact nomatch isStar

variable [Regex]

theorem projectRecords_rows {expressions : List Expr} {batch : RecordBatch} {schema : Schema}
    {records rows : List Record}
    (projected : projectRecords expressions batch schema records = .ok rows) :
    List.Forall₂ (fun r row => projectAll r batch expressions = .ok row.values) records rows := by
  induction records generalizing rows with
  | nil =>
    obtain rfl := Except.ok.inj projected
    exact .nil
  | cons r rest ih =>
    obtain ⟨first, here, projected⟩ := bind_eq_ok.mp projected
    obtain ⟨later, there, projected⟩ := bind_eq_ok.mp projected
    obtain rfl := Except.ok.inj projected
    obtain ⟨values, evaluated, here⟩ := bind_eq_ok.mp here
    obtain ⟨_, _, same⟩ := bind_eq_ok.mp here
    obtain rfl := Except.ok.inj same
    exact .cons evaluated (ih there)

theorem applyProject_rows {expressions : List Expr} {schema : Schema} {batch b : RecordBatch}
    (ran : applyProject expressions schema batch = .ok b) : b.schema = schema ∧
      List.Forall₂ (fun r row => projectAll r batch expressions = .ok row.values) batch.records
        b.records := by
  unfold applyProject at ran
  split at ran
  · rename_i star
    obtain ⟨rfl, _⟩ := fromRecords_eq_ok.mp ran
    obtain rfl := single_star star
    refine ⟨rfl, List.forall₂_same.mpr fun r _ => ?_⟩
    simp [projectAll, projectValues]
  · obtain ⟨rows, projected, built⟩ := bind_eq_ok.mp ran
    obtain ⟨rfl, _⟩ := fromRecords_eq_ok.mp built
    exact ⟨rfl, projectRecords_rows projected⟩

end Projection

section Filters
variable [Regex]

def keeps (predicate : Expr) (batch : RecordBatch) (r : Record) : Bool :=
  answer (evalPredicate predicate r batch)

theorem filterRecords_eq {predicate : Expr} {batch : RecordBatch} {records kept : List Record}
    (filtered : filterRecords predicate batch records = .ok kept) :
    (∀ r ∈ records, evalPredicate predicate r batch = .ok (keeps predicate batch r)) ∧
      kept = records.filter (keeps predicate batch) := by
  induction records generalizing kept with
  | nil =>
    obtain rfl := Except.ok.inj filtered
    exact ⟨fun r mem => (nomatch mem), rfl⟩
  | cons first rest ih =>
    obtain ⟨keep, here, filtered⟩ := bind_eq_ok.mp filtered
    obtain ⟨later, there, filtered⟩ := bind_eq_ok.mp filtered
    obtain rfl := Except.ok.inj filtered
    obtain ⟨each, rfl⟩ := ih there
    have same : keeps predicate batch first = keep := by rw [keeps, here, answer]
    constructor
    · refine List.forall_mem_cons.mpr ⟨?_, each⟩
      rw [same, here]
    · rw [List.filter_cons, same]

theorem filterRecords_judged {predicate : Expr} {batch : RecordBatch} {records : List Record}
    (judged : ∀ r ∈ records, ∃ keep, evalPredicate predicate r batch = .ok keep) :
    filterRecords predicate batch records = .ok (records.filter (keeps predicate batch)) := by
  induction records with
  | nil => rfl
  | cons first rest ih =>
    obtain ⟨keep, here⟩ := judged first List.mem_cons_self
    have same : keeps predicate batch first = keep := by rw [keeps, here, answer]
    simp only [filterRecords, here, ok_bind, ih fun r mem => judged r (List.mem_cons_of_mem _ mem),
      List.filter_cons, same]

theorem mem_filterRecords {predicate : Expr} {batch : RecordBatch} {records kept : List Record}
    (filtered : filterRecords predicate batch records = .ok kept) : ∀ r ∈ kept, r ∈ records := by
  obtain ⟨_, rfl⟩ := filterRecords_eq filtered
  intro r mem
  exact List.mem_of_mem_filter mem

end Filters

section Sorting
variable [Regex]

theorem keyedRecords_fst {order : List SortExpr} {batch : RecordBatch} {records : List Record}
    {keyed : List (Record × List Value)} (found : keyedRecords order batch records = .ok keyed) :
    keyed.map Prod.fst = records := by
  induction records generalizing keyed with
  | nil =>
    obtain rfl := Except.ok.inj found
    rfl
  | cons first rest ih =>
    obtain ⟨keys, _, found⟩ := bind_eq_ok.mp found
    obtain ⟨later, foundRest, found⟩ := bind_eq_ok.mp found
    obtain rfl := Except.ok.inj found
    rw [List.map_cons, ih foundRest]

theorem keyedRecords_eq (order : List SortExpr) (batch : RecordBatch) (records : List Record) :
    keyedRecords order batch records =
      records.mapM fun r => evalAll r batch (order.map SortExpr.expr) >>= fun keys =>
        .ok (r, keys) := by
  induction records with
  | nil => rfl
  | cons r rest ih =>
    rw [keyedRecords, List.mapM_cons, ih]
    cases evalAll r batch (order.map SortExpr.expr) with
    | error e => rfl
    | ok keys => rfl

end Sorting

end RSparkStages
