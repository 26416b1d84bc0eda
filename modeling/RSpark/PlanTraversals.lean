import RSpark.Master
import RSpark.PlanExecutor
import RSpark.TreeWalks

/- The three walks that gather the scans of a plan: the master's partitions, the executor's
   partitions, and the names of the tables. They see the same leaves in the same order. -/
namespace RSparkPlanTraversals
open RSparkBatch RSparkExpr RSparkPlan RSparkMaster RSparkPlanExecutor TreeWalks

section Nodes

theorem nodesOfAll_eq (inputs : List LogicalPlan) : nodesOfAll inputs = inputs.flatMap nodes := by
  induction inputs with
  | nil => rfl
  | cons input rest ih => rw [nodesOfAll, ih, List.flatMap_cons]

theorem nodes_eq (plan : LogicalPlan) : nodes plan = plan :: plan.children.flatMap nodes := by
  cases plan <;> simp [nodes, LogicalPlan.children, nodesOfAll_eq]

mutual
theorem plan_induct (P : LogicalPlan → Prop)
    (step : ∀ plan, (∀ c ∈ plan.children, P c) → P plan) : (plan : LogicalPlan) → P plan
  | .scan _ _ _ _ => step _ nofun
  | .project input _ _ => step _ (List.forall_mem_singleton.mpr (plan_induct P step input))
  | .filter input _ _ => step _ (List.forall_mem_singleton.mpr (plan_induct P step input))
  | .aggregate input _ _ _ => step _ (List.forall_mem_singleton.mpr (plan_induct P step input))
  | .sort input _ _ => step _ (List.forall_mem_singleton.mpr (plan_induct P step input))
  | .limit input _ _ => step _ (List.forall_mem_singleton.mpr (plan_induct P step input))
  | .distinct input _ => step _ (List.forall_mem_singleton.mpr (plan_induct P step input))
  | .join left right _ _ _ => step _ (List.forall_mem_cons.mpr
      ⟨plan_induct P step left, List.forall_mem_singleton.mpr (plan_induct P step right)⟩)
  | .union inputs _ => step _ (plans_induct P step inputs)
  | .empty => step _ nofun

theorem plans_induct (P : LogicalPlan → Prop)
    (step : ∀ plan, (∀ c ∈ plan.children, P c) → P plan) :
    (plans : List LogicalPlan) → ∀ c ∈ plans, P c
  | [] => nofun
  | plan :: rest => List.forall_mem_cons.mpr ⟨plan_induct P step plan, plans_induct P step rest⟩
end

def planShape : Shape LogicalPlan := ⟨LogicalPlan.children, nodes, nodes_eq, plan_induct⟩

structure ScanNode where
  tableName : String
  path : String
  source : String
  schema : Schema

def scanNode : LogicalPlan → Option ScanNode
  | .scan tableName path source schema => some ⟨tableName, path, source, schema⟩
  | _ => none

def scanNodes (plan : LogicalPlan) : List ScanNode := (nodes plan).filterMap scanNode

end Nodes

section Master

def pushPartitions (parallelism : Nat) (path : String) (out : List PartitionSpec) :
    List PartitionSpec :=
  (List.range parallelism).foldl
    (fun out partition => out ++ [⟨out.length, s!"scan[{path}]:p{partition}"⟩]) out

mutual
def collectScansInto (parallelism : Nat) :
    LogicalPlan → Nat × List PartitionSpec → Nat × List PartitionSpec
  | .scan _ path _ _, (scanIdx, out) => (scanIdx + 1, pushPartitions parallelism path out)
  | .project input _ _, state => collectScansInto parallelism input state
  | .filter input _ _, state => collectScansInto parallelism input state
  | .aggregate input _ _ _, state => collectScansInto parallelism input state
  | .sort input _ _, state => collectScansInto parallelism input state
  | .limit input _ _, state => collectScansInto parallelism input state
  | .distinct input _, state => collectScansInto parallelism input state
  | .join left right _ _ _, state =>
      collectScansInto parallelism right (collectScansInto parallelism left state)
  | .union inputs _, state => collectAllScansInto parallelism inputs state
  | .empty, state => state

def collectAllScansInto (parallelism : Nat) :
    List LogicalPlan → Nat × List PartitionSpec → Nat × List PartitionSpec
  | [], state => state
  | input :: rest, state =>
      collectAllScansInto parallelism rest (collectScansInto parallelism input state)
end

/-- `plan_partitions`, with the counters that its walk carries. -/
def planPartitionsInto (plan : LogicalPlan) (parallelism : Nat) : List PartitionSpec :=
  let out := (collectScansInto parallelism plan (0, [])).2
  if out.isEmpty then out ++ [⟨0, "no-input"⟩] else out

theorem collectAllScansInto_eq (parallelism : Nat) (inputs : List LogicalPlan)
    (state : Nat × List PartitionSpec) : collectAllScansInto parallelism inputs state =
      inputs.foldl (fun state c => collectScansInto parallelism c state) state := by
  induction inputs generalizing state with
  | nil => rfl
  | cons input rest ih => rw [collectAllScansInto, ih, List.foldl_cons]

def visitScan (parallelism : Nat) (n : ScanNode) (state : Nat × List PartitionSpec) :
    Nat × List PartitionSpec := (state.1 + 1, pushPartitions parallelism n.path state.2)

theorem collectScansInto_walks (parallelism : Nat) :
    Walks planShape (fun plan state => ((scanNode plan).map (visitScan parallelism · state)).getD
      state) (collectScansInto parallelism) := by
  intro plan state
  cases plan with
  | union inputs schema => exact collectAllScansInto_eq parallelism inputs state
  | _ => rfl

def labelsOf (parallelism : Nat) (n : ScanNode) : List String :=
  (List.range parallelism).map fun partition => s!"scan[{n.path}]:p{partition}"

def numbered (labels : List String) : List PartitionSpec := labels.mapIdx fun i label => ⟨i, label⟩

theorem numbered_append (labels : List String) (label : String) :
    numbered labels ++ [⟨(numbered labels).length, label⟩] = numbered (labels ++ [label]) := by
  simp [numbered, List.mapIdx_append]

theorem pushPartitions_numbered (parallelism : Nat) (n : ScanNode) (labels : List String) :
    pushPartitions parallelism n.path (numbered labels) =
      numbered (labels ++ labelsOf parallelism n) := by
  unfold pushPartitions labelsOf
  induction parallelism with
  | zero => simp
  | succ k ih =>
    rw [List.range_succ, List.foldl_append, ih, List.map_append, ← List.append_assoc]
    exact numbered_append _ _

theorem foldl_visitScan (parallelism : Nat) (scans : List ScanNode) (count : Nat)
    (labels : List String) :
    scans.foldl (fun state n => visitScan parallelism n state) (count, numbered labels) =
      (count + scans.length, numbered (labels ++ scans.flatMap (labelsOf parallelism))) := by
  induction scans generalizing count labels with
  | nil => rw [List.foldl_nil, List.flatMap_nil, List.append_nil]; rfl
  | cons n scans ih =>
    rw [List.foldl_cons, visitScan, pushPartitions_numbered, ih, List.flatMap_cons,
      List.append_assoc, List.length_cons]
    congr 1
    omega

theorem collectScansInto_eq (plan : LogicalPlan) (parallelism : Nat) :
    collectScansInto parallelism plan (0, []) = ((scanNodes plan).length,
      numbered ((scanNodes plan).flatMap (labelsOf parallelism))) := by
  rw [walk_filterMap (collectScansInto_walks parallelism)]
  have gathered := foldl_visitScan parallelism (scanNodes plan) 0 []
  rw [Nat.zero_add, List.nil_append] at gathered
  exact gathered

end Master

section Executor

theorem collectAllPartitions_eq (inputs : List LogicalPlan) :
    collectAllPartitions inputs = inputs.flatMap collectPartitions := by
  induction inputs with
  | nil => rfl
  | cons input rest ih => rw [collectAllPartitions, ih, List.flatMap_cons]

def visitFile (n : ScanNode) (out : List Partition) : List Partition := out ++ [.wholeFile n.path]

theorem collectPartitions_walks : Walks planShape
    (fun plan out => ((scanNode plan).map (visitFile · out)).getD out)
    (fun plan out => out ++ collectPartitions plan) := by
  intro plan out
  cases plan with
  | scan tableName path source schema => rfl
  | join left right on how schema =>
    show out ++ (collectPartitions left ++ collectPartitions right) = _
    rw [← List.append_assoc]
    rfl
  | union inputs schema =>
    show out ++ collectAllPartitions inputs = _
    rw [collectAllPartitions_eq]
    exact (foldl_append_flatMap collectPartitions inputs out).symm
  | empty => exact List.append_nil out
  | _ => rfl

theorem collectPartitions_eq (plan : LogicalPlan) :
    collectPartitions plan = (scanNodes plan).map fun n => Partition.wholeFile n.path := by
  have walked := walk_filterMap collectPartitions_walks plan []
  rw [List.nil_append] at walked
  rw [walked]
  unfold visitFile
  rw [foldl_append_flatMap (fun n : ScanNode => [Partition.wholeFile n.path]), List.nil_append,
    List.map_eq_flatMap]
  rfl

end Executor

section Tables

theorem collectAllTableRefsInto_eq (inputs : List LogicalPlan) (out : List String) :
    collectAllTableRefsInto inputs out =
      inputs.foldl (fun out c => c.collectTableRefsInto out) out := by
  induction inputs generalizing out with
  | nil => rfl
  | cons input rest ih => rw [collectAllTableRefsInto, ih, List.foldl_cons]

def visitTable (n : ScanNode) (out : List String) : List String :=
  if n.tableName ∈ out then out else out ++ [n.tableName]

theorem collectTableRefsInto_walks : Walks planShape
    (fun plan out => ((scanNode plan).map (visitTable · out)).getD out)
    LogicalPlan.collectTableRefsInto := by
  intro plan out
  cases plan with
  | union inputs schema => exact collectAllTableRefsInto_eq inputs out
  | _ => rfl

theorem collectTableRefs_eq (plan : LogicalPlan) :
    plan.collectTableRefs = Listing.firsts ((scanNodes plan).map ScanNode.tableName) := by
  rw [LogicalPlan.collectTableRefs, walk_filterMap collectTableRefsInto_walks, ← foldl_new_nil,
    List.foldl_map]
  rfl

end Tables

section Agreement

theorem scanNodes_children {plan : LogicalPlan} (inner : scanNode plan = none) :
    scanNodes plan = plan.children.flatMap scanNodes := by
  rw [scanNodes, nodes_eq, List.filterMap_cons_none inner, List.filterMap_flatMap]
  rfl

theorem collectAllScans_eq (parallelism : Nat) (inputs : List LogicalPlan) :
    collectAllScans parallelism inputs = inputs.flatMap (collectScans parallelism) := by
  induction inputs with
  | nil => rfl
  | cons input rest ih => rw [collectAllScans, ih, List.flatMap_cons]

theorem collectScans_eq (parallelism : Nat) (plan : LogicalPlan) :
    collectScans parallelism plan = (scanNodes plan).flatMap (labelsOf parallelism) := by
  refine plan_induct (fun plan => collectScans parallelism plan =
    (scanNodes plan).flatMap (labelsOf parallelism)) (fun plan below => ?_) plan
  cases plan with
  | scan tableName path source schema => exact (List.flatMap_singleton _ _).symm
  | join left right on how schema =>
    rw [scanNodes_children rfl, collectScans, below left (by simp [LogicalPlan.children]),
      below right (by simp [LogicalPlan.children])]
    simp [LogicalPlan.children]
  | union inputs schema =>
    rw [scanNodes_children rfl, collectScans, collectAllScans_eq, List.flatMap_assoc]
    exact List.flatMap_congr fun c mem => below c mem
  | empty => rfl
  | _ =>
    rw [scanNodes_children rfl, collectScans, below _ (by simp [LogicalPlan.children])]
    simp [LogicalPlan.children]

theorem numbered_isEmpty (labels : List String) : (numbered labels).isEmpty = labels.isEmpty := by
  cases labels with
  | nil => rfl
  | cons label labels => simp [numbered]

theorem planPartitionsInto_gathered (plan : LogicalPlan) (parallelism : Nat) :
    planPartitionsInto plan parallelism =
      let labels := (scanNodes plan).flatMap (labelsOf parallelism)
      if labels.isEmpty then [⟨0, "no-input"⟩] else numbered labels := by
  rw [planPartitionsInto, collectScansInto_eq]
  dsimp only
  rw [numbered_isEmpty]
  split
  · rename_i none'
    rw [List.isEmpty_iff.mp none']
    rfl
  · rfl

theorem planPartitions_eq (plan : LogicalPlan) (parallelism : Nat) :
    planPartitions plan parallelism = planPartitionsInto plan parallelism := by
  rw [planPartitions, planPartitionsInto_gathered, collectScans_eq]
  dsimp only
  rw [← numbered, numbered_isEmpty]

/-- What the three walks give, in terms of the scans of the plan in pre-order. -/
structure SameLeaves (plan : LogicalPlan) (parallelism : Nat) : Prop where
  count : (planPartitionsInto plan parallelism).length =
    max 1 (parallelism * (scanNodes plan).length)
  numbered : ∀ (i : Nat) (spec : PartitionSpec),
    (planPartitionsInto plan parallelism)[i]? = some spec → spec.index = i
  labels : (planPartitionsInto plan parallelism).map PartitionSpec.label =
    if scanNodes plan = [] then ["no-input"]
    else (scanNodes plan).flatMap (labelsOf parallelism)
  paths : collectPartitions plan = (scanNodes plan).map fun n => .wholeFile n.path
  tables : plan.collectTableRefs = Listing.firsts ((scanNodes plan).map ScanNode.tableName)

theorem numbered_labels (labels : List String) :
    (numbered labels).map PartitionSpec.label = labels := by
  simp [numbered, List.mapIdx_eq_zipIdx_map, Function.comp_def]

theorem numbered_index (labels : List String) (i : Nat) (spec : PartitionSpec)
    (here : (numbered labels)[i]? = some spec) : spec.index = i := by
  rw [numbered, List.getElem?_mapIdx, Option.map_eq_some_iff] at here
  obtain ⟨label, _, rfl⟩ := here
  rfl

theorem planPartitionsInto_eq (plan : LogicalPlan) {parallelism : Nat}
    (positive : 1 ≤ parallelism) : planPartitionsInto plan parallelism =
      numbered (if scanNodes plan = [] then ["no-input"]
        else (scanNodes plan).flatMap (labelsOf parallelism)) := by
  rw [planPartitionsInto_gathered]
  cases scans : scanNodes plan with
  | nil => rfl
  | cons n rest =>
    have some' : labelsOf parallelism n ≠ [] := by
      intro none'
      have size := congrArg List.length none'
      simp [labelsOf] at size
      omega
    obtain ⟨label, more, first⟩ := List.exists_cons_of_ne_nil some'
    rw [if_neg (List.cons_ne_nil n rest), List.flatMap_cons, first]
    rfl

theorem labels_length (parallelism : Nat) (scans : List ScanNode) :
    (scans.flatMap (labelsOf parallelism)).length = parallelism * scans.length := by
  induction scans with
  | nil => rfl
  | cons n scans ih =>
    rw [List.flatMap_cons, List.length_append, ih, List.length_cons, Nat.mul_succ, labelsOf,
      List.length_map, List.length_range, Nat.add_comm]

/-- The three walks of a plan gather the same scans in the same order. -/
theorem same_leaves (plan : LogicalPlan) (parallelism : Nat) (positive : 1 ≤ parallelism) :
    SameLeaves plan parallelism := by
  have specs := planPartitionsInto_eq plan positive
  refine ⟨?_, ?_, ?_, collectPartitions_eq plan, collectTableRefs_eq plan⟩
  · rw [specs, numbered, List.length_mapIdx]
    cases scans : scanNodes plan with
    | nil => rfl
    | cons n rest =>
      rw [if_neg (List.cons_ne_nil n rest), labels_length, List.length_cons]
      exact (Nat.max_eq_right (Nat.mul_pos positive (Nat.succ_pos _))).symm
  · rw [specs]
    exact numbered_index _
  · rw [specs, numbered_labels]

end Agreement

section Witness

def usersTwice : LogicalPlan :=
  .join (.scan "users" "u.csv" "csv" ⟨[]⟩)
    (.union [.scan "orders" "o.csv" "csv" ⟨[]⟩, .scan "users" "u.csv" "csv" ⟨[]⟩] ⟨[]⟩) [] .inner ⟨[]⟩

/-- Three scans, two tables. -/
theorem users_twice_walked :
    (scanNodes usersTwice).map ScanNode.tableName = ["users", "orders", "users"] ∧
      usersTwice.collectTableRefs = ["users", "orders"] ∧ SameLeaves usersTwice 2 :=
  ⟨rfl, by decide, same_leaves usersTwice 2 (by decide)⟩

end Witness

end RSparkPlanTraversals
