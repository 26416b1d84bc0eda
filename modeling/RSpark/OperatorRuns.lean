import RSpark.OperatorRounds

/- What the controller achieves while it reconciles several clusters at once, over any server that
   does what is documented of it. -/
namespace RSparkOperatorRuns
open RSparkNdjson RSparkJsonWriter RSparkOperator RSparkOperatorRounds Calls

section Standing
variable {σ ρ : Type} {server : ApiServer σ} {start p : Pool server.interface ρ}
  {history : List (ApiEvent server)} {asked : Asked}

theorem touched_grows (lawful : server.Lawful) (run : Run start history p) (target : Target) :
    server.touched start.state target ≤ server.touched p.state target :=
  run_invariant (J := fun s => server.touched start.state target ≤ server.touched s target)
    (fun o before => before.trans (lawful.grows o _ target)) le_rfl run

theorem asked_holds (lawful : server.Lawful) (run : Run start history p)
    (last : LastAsked asked history)
    (untouched : server.touched p.state asked.target = server.touched start.state asked.target) :
    server.holds p.state asked := by
  induction run with
  | nil =>
    obtain ⟨before, e, after, same, _⟩ := last
    exact absurd same (by simp)
  | @step h p i o k run next ih =>
    have before := touched_grows lawful run asked.target
    have now := lawful.grows o p.state asked.target
    have still : server.touched p.state asked.target = server.touched start.state asked.target :=
      le_antisymm (now.trans untouched.le) before
    have same : server.Untouched o p.state asked.target := untouched.trans still.symm
    rcases lastAsked_snoc last with done | ⟨last, other⟩
    · unfold acknowledged at done
      split at done
      · rename_i well
        exact lawful.written o p.state asked done well same
      · cases done
    · exact lawful.kept o p.state asked other same (ih last still)

theorem asked_held (lawful : server.Lawful) (run : Run start history p)
    {before after : List (ApiEvent server)} {e : ApiEvent server}
    (split : history = before ++ e :: after) (last : LastAsked asked before)
    (untouched : server.touched p.state asked.target = server.touched start.state asked.target) :
    ∃ s, e.resp = (server.exec e.op s).2 ∧ server.holds s asked ∧
      server.Untouched e.op s asked.target := by
  obtain ⟨q, q', upto, answer, state, rest⟩ := run_split run split
  have one := touched_grows lawful upto asked.target
  have two := lawful.grows e.op q.state asked.target
  have three := touched_grows lawful rest asked.target
  rw [state] at three
  have still : server.touched q.state asked.target = server.touched start.state asked.target :=
    le_antisymm (two.trans (three.trans untouched.le)) one
  refine ⟨q.state, answer, asked_holds lawful upto last still, le_antisymm ?_ two⟩
  exact three.trans (untouched.trans still.symm).le

end Standing

section Runs
variable [SerdeJson] {σ : Type} {server : ApiServer σ}

/-- A cluster and its resource as it is found in one round after the other. -/
structure Cluster where
  ns : String
  name : String
  rounds : List Round
  own : ∀ round ∈ rounds, (ns, name) = (round.ns, round.name)

def Cluster.id (c : Cluster) : String × String := (c.ns, c.name)

def operatorPool (server : ApiServer σ) (s : σ) (clusters : List Cluster) :
    Pool server.interface (Option (Round × Except Error Action)) :=
  ⟨s, clusters.map fun c => rounds none c.rounds⟩

variable {s : σ} {clusters : List Cluster} {history : List (ApiEvent server)}
  {p : Pool server.interface (Option (Round × Except Error Action))}

theorem cluster_traced (run : Run (operatorPool server s clusters) history p) {i : Nat}
    {c : Cluster} (called : clusters[i]? = some c) : ∃ q traces, p.threads[i]? = some q ∧
      Traced c.rounds none (ownOf i history) q traces := by
  have here : (operatorPool server s clusters).threads[i]? = some (rounds none c.rounds) :=
    List.getElem?_map.trans (called ▸ rfl)
  obtain ⟨q, there, reached⟩ := run_own run here
  obtain ⟨traces, traced⟩ := rounds_traced reached
  exact ⟨q, traces, there, traced⟩

theorem child_target {round : Round} {child : Object} (mem : child ∈ children round.cr round.ns) :
    (Object.asked child).target ∈ targets round.ns round.name := by
  refine List.mem_cons_of_mem _ (List.mem_map_of_mem ?_)
  exact children_keys round.cr round.ns ▸ List.mem_map_of_mem mem

theorem asks_target {round : Round} {o : ApiOp} (asks : Asks round o) {target : Target}
    (about : ApiOp.target o = some target) : target ∈ targets round.ns round.name := by
  cases o with
  | patch key object =>
    obtain rfl := Option.some.inj about
    obtain ⟨listed, rfl⟩ := asks
    exact child_target listed
  | create key object =>
    obtain rfl := Option.some.inj about
    obtain ⟨listed, rfl⟩ := asks
    exact child_target listed
  | patchStatus ns name status =>
    obtain rfl := Option.some.inj about
    obtain ⟨rfl, rfl⟩ := asks
    exact List.mem_cons_self
  | getDeployment ns name => cases about
  | listPods ns label value => cases about

theorem event_target (run : Run (operatorPool server s clusters) history p) {e : ApiEvent server}
    (mem : e ∈ history) {target : Target} (about : ApiOp.target e.op = some target) :
    ∃ c, clusters[e.thread]? = some c ∧ target ∈ targets c.ns c.name := by
  have inside : e.thread < clusters.length := by
    have found := run_inside run e mem
    rwa [operatorPool, List.length_map] at found
  obtain ⟨q, traces, _, traced⟩ := cluster_traced run (List.getElem?_eq_getElem inside)
  refine ⟨_, List.getElem?_eq_getElem inside, ?_⟩
  have own : e ∈ ownOf e.thread history := List.mem_filter.mpr ⟨mem, decide_eq_true rfl⟩
  rw [← traced.own] at own
  obtain ⟨t, listed, mine⟩ := List.mem_flatMap.mp own
  have round := traced.begun.subset (List.mem_map_of_mem listed)
  obtain ⟨ns, name⟩ := Prod.mk.inj (clusters[e.thread].own t.round round)
  rw [ns, name]
  exact asks_target ((traced.proper t listed).asks e mine) about

theorem threads_apart (distinct : (clusters.map Cluster.id).Nodup)
    (run : Run (operatorPool server s clusters) history p) {e e' : ApiEvent server}
    (mem : e ∈ history) (mem' : e' ∈ history) {target : Target}
    (about : ApiOp.target e.op = some target) (about' : ApiOp.target e'.op = some target) :
    e.thread = e'.thread := by
  obtain ⟨c, found, one⟩ := event_target run mem about
  obtain ⟨c', found', two⟩ := event_target run mem' about'
  have named (i : Nat) (c : Cluster) (found : clusters[i]? = some c) :
      (clusters.map Cluster.id)[i]? = some c.id := by
    rw [List.getElem?_map, found, Option.map_some]
  have same : c.id = c'.id := targets_apart one two
  have inside := (List.getElem?_eq_some_iff.mp (named _ c found)).1
  exact (List.getElem?_inj inside distinct).mp
    ((named _ c found).trans (same ▸ (named _ c' found').symm))

theorem last_of_own (distinct : (clusters.map Cluster.id).Nodup)
    (run : Run (operatorPool server s clusters) history p) {earlier later : List (ApiEvent server)}
    (part : history = earlier ++ later) {i : Nat} {asked : Asked}
    (last : LastAsked asked (ownOf i earlier)) : LastAsked asked earlier := by
  obtain ⟨before, e, after, own, done, quiet⟩ := last
  obtain ⟨front, back, split, _, rest⟩ := own_split own
  refine ⟨front, e, back, split, done, fun x mem about => ?_⟩
  have inside {y : ApiEvent server} (mem : y ∈ earlier) : y ∈ history :=
    part ▸ List.mem_append_left later mem
  have here : e ∈ earlier := split ▸ List.mem_append_right front List.mem_cons_self
  have there : x ∈ earlier := split ▸ List.mem_append_right front (List.mem_cons_of_mem e mem)
  have same := threads_apart distinct run (inside here) (inside there) (acknowledged_target done)
    about
  have mine : e.thread = i := by
    have listed : e ∈ ownOf i earlier := own ▸ List.mem_append_right before List.mem_cons_self
    exact of_decide_eq_true (List.mem_filter.mp listed).2
  refine quiet x ?_ about
  rw [← rest]
  exact List.mem_filter.mpr ⟨mem, decide_eq_true (same.symm.trans mine)⟩

end Runs

section Results
variable [SerdeJson] {σ : Type} {server : ApiServer σ}

def PodsOf (cr : SparkCluster) (pods : List Pod) : Prop := ∀ pod ∈ pods,
  pod.ns = cr.nsOrDefault ∧ pod.labels.bind (·.get rsparkClusterLabel) = some cr.nameAny

/-- The objects of the cluster are there as its resource asks, and its status says how many of the
    replicas asked for were found ready. -/
structure Reconciled (server : ApiServer σ) (s : σ) (round : Round) : Prop where
  children : ∀ child ∈ children round.cr round.ns, server.holds s (Object.asked child)
  status : ∃ pods, PodsOf round.cr pods ∧ server.holds s (.status round.ns round.name
    (statusOf round.cr round.ns round.now round.cr.spec.master.replicas
      round.cr.spec.workers.replicas pods))

/-- Nobody else has changed the objects and the status of the cluster meanwhile. -/
def LeftAlone (server : ApiServer σ) (before after : σ) (round : Round) : Prop :=
  ∀ target ∈ targets round.ns round.name,
    server.touched after target = server.touched before target

variable {s : σ} {clusters : List Cluster} {history : List (ApiEvent server)}
  {p : Pool server.interface (Option (Round × Except Error Action))} {i : Nat} {round : Round}
  {action : Action}

theorem thread_completed (run : Run (operatorPool server s clusters) history p)
    (there : p.threads[i]? = some (.ret (some (round, .ok action)))) :
    ∃ front own, ownOf i history = front ++ own ∧ Complete round own := by
  have inside : i < clusters.length := by
    have found := (List.getElem?_eq_some_iff.mp there).1
    rwa [run_length run, operatorPool, List.length_map] at found
  obtain ⟨q, traces, found, traced⟩ := cluster_traced run (List.getElem?_eq_getElem inside)
  have ended := (traced.ended _ (Option.some.inj (found.symm.trans there))).2
  cases final : traces.getLast? with
  | none =>
    rw [final] at ended
    cases ended
  | some t =>
    rw [final] at ended
    obtain ⟨answer, found, same⟩ := Option.map_eq_some_iff.mp ended.symm
    obtain ⟨rfl, rfl⟩ := Prod.mk.inj same
    have cut := List.dropLast_append_getLast? t final
    refine ⟨traces.dropLast.flatMap Trace.own, t.own, ?_, ?_⟩
    · rw [← traced.own]
      conv_lhs => rw [← cut]
      rw [List.flatMap_append, List.flatMap_singleton]
    · exact (traced.proper t (List.mem_of_getLast? final)).done action found

theorem deployment_counted (lawful : server.Lawful) (distinct : (clusters.map Cluster.id).Nodup)
    (run : Run (operatorPool server s clusters) history p)
    {before after : List (ApiEvent server)} {j : Nat} {name : String}
    {found : Option FoundDeployment} {metadata : ObjectMeta} {spec : DeploymentSpec}
    (own : ownOf i history =
      before ++ ⟨j, .getDeployment round.ns name, .ok found⟩ :: after)
    (last : LastAsked (.object ⟨round.ns, .deployment, name⟩ ⟨metadata, .deployment spec⟩) before)
    (alone : server.touched p.state (.object ⟨round.ns, .deployment, name⟩) =
      server.touched s (.object ⟨round.ns, .deployment, name⟩)) :
    replicasOf found = spec.replicas := by
  obtain ⟨earlier, later, split, upto, _⟩ := own_split own
  have whole := last_of_own distinct run split (upto ▸ last)
  obtain ⟨state, answer, holds, untouched⟩ := asked_held lawful run split whole alone
  exact lawful.counted _ _ state metadata spec found holds untouched answer.symm

theorem pods_listed (lawful : server.Lawful)
    (run : Run (operatorPool server s clusters) history p)
    {before after : List (ApiEvent server)} {j : Nat} {pods : List Pod}
    (own : ownOf i history =
      before ++ ⟨j, .listPods round.ns rsparkClusterLabel round.name, .ok pods⟩ :: after) :
    PodsOf round.cr pods := by
  obtain ⟨earlier, later, split, _⟩ := own_split own
  obtain ⟨q, _, _, answer, _⟩ := run_split run split
  exact lawful.listed _ _ _ q.state pods answer.symm

theorem round_reconciled (lawful : server.Lawful) (distinct : (clusters.map Cluster.id).Nodup)
    (run : Run (operatorPool server s clusters) history p)
    (there : p.threads[i]? = some (.ret (some (round, .ok action))))
    (alone : LeftAlone server s p.state round) : Reconciled server p.state round := by
  obtain ⟨front, own, whole, complete⟩ := thread_completed run there
  have holds {asked : Asked} (mine : asked.target ∈ targets round.ns round.name)
      (last : LastAsked asked own) : server.holds p.state asked := by
    refine asked_holds lawful run ?_ (alone _ mine)
    refine last_of_own (i := i) distinct run (List.append_nil history).symm ?_
    exact whole ▸ lastAsked_after last front
  cases complete with
  | @told applied a b c d master workers pods order last =>
    have masterListed : masterDeployment round.cr round.ns ∈ children round.cr round.ns := by
      simp [children]
    have workerListed : workerDeployment round.cr round.ns ∈ children round.cr round.ns := by
      simp [children]
    have counted : replicasOf master = round.cr.spec.master.replicas :=
      deployment_counted lawful distinct run (whole.trans (List.append_assoc ..).symm)
        (lastAsked_after (last _ masterListed) front) (alone _ (child_target masterListed))
    have workersCounted : replicasOf workers = round.cr.spec.workers.replicas := by
      have cut := whole.trans (List.append_assoc ..).symm
      rw [List.append_cons] at cut
      refine deployment_counted lawful distinct run cut
        (lastAsked_before (lastAsked_after (last _ workerListed) front) fun e mem => ?_)
        (alone _ (child_target workerListed))
      rw [List.mem_singleton.mp mem]
      exact fun same => by cases same
    have listed : PodsOf round.cr pods := by
      have cut := whole.trans (List.append_assoc ..).symm
      rw [List.append_cons, List.append_cons] at cut
      exact pods_listed lawful run cut
    refine ⟨fun child mem => holds (child_target mem) (lastAsked_before (last child mem) ?_),
      pods, listed, ?_⟩
    · intro e mem about
      simp only [List.mem_cons, List.not_mem_nil, or_false] at mem
      rcases mem with rfl | rfl | rfl | rfl <;> cases about
    · rw [← counted, ← workersCounted]
      refine holds List.mem_cons_self ?_
      rw [List.append_cons, List.append_cons, List.append_cons]
      exact ⟨_, _, [], rfl, rfl, fun x mem => absurd mem List.not_mem_nil⟩

/-- Whatever the server answers, each cluster asks for what its rounds ask for and no other cluster
    writes it. -/
theorem requests_as_asked (s : σ) (clusters : List Cluster)
    (distinct : (clusters.map Cluster.id).Nodup) (history : List (ApiEvent server))
    (p : Pool server.interface (Option (Round × Except Error Action)))
    (run : Run (operatorPool server s clusters) history p) :
    (∀ (i : Nat) (c : Cluster), clusters[i]? = some c → ∃ q traces, p.threads[i]? = some q ∧
        Traced c.rounds none (ownOf i history) q traces) ∧
      ∀ e ∈ history, ∀ e' ∈ history, ∀ target, ApiOp.target e.op = some target →
        ApiOp.target e'.op = some target → e.thread = e'.thread :=
  ⟨fun _ _ called => cluster_traced run called, fun _ mem _ mem' _ about about' =>
    threads_apart distinct run mem mem' about about'⟩

end Results

section Phases
variable [SerdeJson] {σ : Type} {server : ApiServer σ}

omit [SerdeJson] in
theorem ready_iff {masterReplicas workerReplicas : Int} {readyMasters readyWorkers : Nat} :
    phaseOf masterReplicas workerReplicas readyMasters readyWorkers = .ready ↔
      masterReplicas ≠ 0 ∧ workerReplicas ≠ 0 ∧ masterReplicas ≤ readyMasters ∧
        workerReplicas ≤ readyWorkers := by
  unfold phaseOf
  split
  · rename_i none
    simp only [reduceCtorEq, false_iff]
    rintro ⟨masters, workers, _⟩
    exact none.elim masters workers
  · rename_i some
    rw [not_or] at some
    split
    · rename_i enough
      exact iff_of_true rfl ⟨some.1, some.2, enough⟩
    · rename_i few
      simp only [reduceCtorEq, false_iff]
      exact fun all => few all.2.2

omit [SerdeJson] in
/-- A section that is left out asks for no replicas, whatever its fields' own defaults are. -/
theorem omitted_replicas {written : WrittenSpec}
    (omitted : written.master = none ∨ written.workers = none) :
    written.read.master.replicas = 0 ∨ written.read.workers.replicas = 0 := by
  rcases omitted with none | none
  · exact Or.inl (by simp [WrittenSpec.read, none, MasterSpec.default])
  · exact Or.inr (by simp [WrittenSpec.read, none, WorkersSpec.default])

end Phases

section Witness

/-- What becomes of one request. A lost answer leaves the caller with an error although the
    request was carried out; only what is not there is not found. -/
inductive Fate where
  | done
  | lost
  | notFound
  | refused (code : {code : Option Nat // code ≠ some 404})

structure PlainState where
  objects : InsertionMap Key Object
  statuses : InsertionMap (String × String) SparkClusterStatus
  requests : Nat
  fates : Nat → Fate
  pods : Nat → List Pod

def PlainState.next (s : PlainState) : PlainState := { s with requests := s.requests + 1 }

def PlainState.write (s after : PlainState) : PlainState × Except KubeError Unit :=
  match s.fates s.requests with
  | .done => (after.next, .ok ())
  | .lost => (after.next, .error ⟨none⟩)
  | .notFound => (s.next, .error ⟨some 404⟩)
  | .refused code => (s.next, .error ⟨code⟩)

def PlainState.read {α : Type} (s : PlainState) (answer : α) : PlainState × Except KubeError α :=
  match s.fates s.requests with
  | .done | .notFound => (s.next, .ok answer)
  | .lost => (s.next, .error ⟨none⟩)
  | .refused code => (s.next, .error ⟨code⟩)

def foundOf : Object → FoundDeployment
  | ⟨_, .deployment spec⟩ => ⟨some ⟨some spec.replicas⟩⟩
  | _ => ⟨none⟩

def plainExec : (o : ApiOp) → PlainState → PlainState × o.Resp
  | .patch key object, s =>
      let after := { s with objects := s.objects.insert key object }
      match s.fates s.requests, s.objects.get key with
      | .notFound, some _ => (after.next, .ok ())
      | _, _ => s.write after
  | .create key object, s =>
      match s.objects.get key with
      | some _ => (s.next, .error ⟨some 409⟩)
      | none => s.write { s with objects := s.objects.insert key object }
  | .getDeployment ns name, s => s.read ((s.objects.get ⟨ns, .deployment, name⟩).map foundOf)
  | .listPods ns label value, s =>
      s.read ((s.pods s.requests).filter fun pod =>
        pod.ns = ns ∧ pod.labels.bind (·.get label) = some value)
  | .patchStatus ns name status, s =>
      s.write { s with statuses := s.statuses.insert (ns, name) status }

def PlainHolds (s : PlainState) : Asked → Prop
  | .object key object => s.objects.get key = some object
  | .status ns name status => s.statuses.get (ns, name) = some status

def plainServer : ApiServer PlainState := ⟨plainExec, PlainHolds, fun _ _ => 0⟩

def PlainState.put (s : PlainState) : Asked → PlainState
  | .object key object => { s with objects := s.objects.insert key object }
  | .status ns name status => { s with statuses := s.statuses.insert (ns, name) status }

def Same (s s' : PlainState) : Prop := s.objects = s'.objects ∧ s.statuses = s'.statuses

theorem holds_same {s s' : PlainState} (same : Same s s') (asked : Asked) :
    PlainHolds s asked ↔ PlainHolds s' asked := by
  cases asked with
  | object key object => rw [PlainHolds, PlainHolds, same.1]
  | status ns name status => rw [PlainHolds, PlainHolds, same.2]

theorem put_holds (s : PlainState) (asked : Asked) : PlainHolds (s.put asked) asked := by
  cases asked with
  | object key object => exact InsertionMap.get_insert_self _ _ _
  | status ns name status => exact InsertionMap.get_insert_self _ _ _

theorem put_other {s : PlainState} {asked other : Asked} (differ : asked.target ≠ other.target)
    (holds : PlainHolds s other) : PlainHolds (s.put asked) other := by
  cases asked with
  | object key object =>
    cases other with
    | object key' object' =>
      have apart : key' ≠ key := fun same => differ (congrArg Target.object same.symm)
      exact (InsertionMap.get_insert ..).trans ((if_neg apart).trans holds)
    | status ns name status => exact holds
  | status ns name status =>
    cases other with
    | object key object => exact holds
    | status ns' name' status' =>
      have apart : (ns', name') ≠ (ns, name) := fun same => by
        obtain ⟨rfl, rfl⟩ := Prod.mk.inj same
        exact differ rfl
      exact (InsertionMap.get_insert ..).trans ((if_neg apart).trans holds)

/-- A write is carried out, or it is refused and nothing has changed. -/
def Carried (s s' : PlainState) (asked : Asked) (answer : Except KubeError Unit) : Prop :=
  Same s' (s.put asked) ∨ Same s' s ∧ ∃ e, answer = .error e

theorem write_carried (s : PlainState) (asked : Asked) :
    Carried s (s.write (s.put asked)).1 asked (s.write (s.put asked)).2 := by
  unfold PlainState.write
  split
  · exact Or.inl ⟨rfl, rfl⟩
  · exact Or.inl ⟨rfl, rfl⟩
  · exact Or.inr ⟨⟨rfl, rfl⟩, _, rfl⟩
  · exact Or.inr ⟨⟨rfl, rfl⟩, _, rfl⟩

theorem patch_carried (s : PlainState) (key : Key) (object : Object) :
    Carried s (plainExec (.patch key object) s).1 (.object key object)
      (plainExec (.patch key object) s).2 := by
  simp only [plainExec]
  split
  · exact Or.inl ⟨rfl, rfl⟩
  · exact write_carried s (.object key object)

theorem create_carried (s : PlainState) (key : Key) (object : Object) :
    Carried s (plainExec (.create key object) s).1 (.object key object)
      (plainExec (.create key object) s).2 := by
  simp only [plainExec]
  split
  · exact Or.inr ⟨⟨rfl, rfl⟩, _, rfl⟩
  · exact write_carried s (.object key object)

theorem read_same {α : Type} (s : PlainState) (answer : α) : Same (s.read answer).1 s := by
  unfold PlainState.read
  split <;> exact ⟨rfl, rfl⟩

theorem read_answer {α : Type} {s : PlainState} {answer a : α}
    (same : (s.read answer).2 = .ok a) : a = answer := by
  unfold PlainState.read at same
  split at same
  · exact (Except.ok.inj same).symm
  · exact (Except.ok.inj same).symm
  · cases same
  · cases same

theorem asked_carried {o : ApiOp} {s : PlainState} {asked : Asked}
    (asks : ApiOp.asks o = some asked) : Same (plainExec o s).1 (s.put asked) ∨
      Same (plainExec o s).1 s ∧ o.error (plainExec o s).2 ≠ none := by
  cases o with
  | patch key object =>
    obtain rfl := Option.some.inj asks
    refine (patch_carried s key object).imp_right fun ⟨same, e, failed⟩ => ⟨same, ?_⟩
    have error : ApiOp.error (.patch key object) (plainExec (.patch key object) s).2 = some e :=
      failed ▸ rfl
    exact fun well => absurd (error.symm.trans well) (by simp)
  | create key object =>
    obtain rfl := Option.some.inj asks
    refine (create_carried s key object).imp_right fun ⟨same, e, failed⟩ => ⟨same, ?_⟩
    have error : ApiOp.error (.create key object) (plainExec (.create key object) s).2 = some e :=
      failed ▸ rfl
    exact fun well => absurd (error.symm.trans well) (by simp)
  | patchStatus ns name status =>
    obtain rfl := Option.some.inj asks
    refine (write_carried s (.status ns name status)).imp_right fun ⟨same, e, failed⟩ => ⟨same, ?_⟩
    have error : ApiOp.error (.patchStatus ns name status)
        (plainExec (.patchStatus ns name status) s).2 = some e := failed ▸ rfl
    exact fun well => absurd (error.symm.trans well) (by simp)
  | getDeployment ns name => cases asks
  | listPods ns label value => cases asks

theorem unasked_same {o : ApiOp} {s : PlainState} (asks : ApiOp.asks o = none) :
    Same (plainExec o s).1 s := by
  cases o with
  | getDeployment ns name => exact read_same s _
  | listPods ns label value => exact read_same s _
  | _ => cases asks

theorem plain_lawful : plainServer.Lawful where
  grows := fun _ _ _ => le_rfl
  written := by
    intro o s asked asks well _
    rcases asked_carried asks with same | ⟨_, failed⟩
    · exact (holds_same same asked).mpr (put_holds s asked)
    · exact absurd well failed
  kept := by
    intro o s asked other _ holds
    cases asks : ApiOp.asks o with
    | none => exact (holds_same (unasked_same asks) asked).mpr holds
    | some written =>
      rcases asked_carried asks with same | ⟨same, _⟩
      · refine (holds_same same asked).mpr (put_other (fun equal => other ?_) holds)
        rw [ApiOp.target, asks]
        exact congrArg some equal
      · exact (holds_same same asked).mpr holds
  counted := by
    intro ns name s metadata spec found holds _ answered
    have there : s.objects.get ⟨ns, .deployment, name⟩ = some ⟨metadata, .deployment spec⟩ := holds
    rw [read_answer answered, there]
    rfl
  listed := by
    intro ns label value s pods answered pod mem
    rw [read_answer answered] at mem
    exact of_decide_eq_true (List.mem_filter.mp mem).2

@[reducible] def configPrinter : SerdeJson :=
  onePrinter "\x7b\"examples\":\"false\",\"load\":\"\"\x7d"

def bareSpec : WrittenSpec := ⟨none, none, none, some ⟨none, none, none, none, none⟩⟩

def bareCluster (name : String) : SparkCluster := ⟨some name, none, none, some "u", bareSpec.read⟩

def bareRounds (name : String) : Cluster :=
  ⟨"default", name, [⟨bareCluster name, "now"⟩], by simp [bareCluster, Round.ns, Round.name,
    SparkCluster.nsOrDefault, SparkCluster.nameAny]⟩

/-- The first two requests find nothing to patch. -/
def emptyServer : PlainState :=
  ⟨.empty, .empty, 0, fun n => if n < 2 then .notFound else .done, fun _ => []⟩

def bothPool : Pool plainServer.interface (Option (Round × Except Error Action)) :=
  @operatorPool configPrinter _ plainServer emptyServer
    [bareRounds "demo", bareRounds "demo-master"]

def bothOrder : List Nat :=
  [0, 1, 0, 1, 0, 1, 0, 1, 0, 1, 0, 1, 0, 1, 0, 1, 0, 1, 0, 1, 0, 1, 0, 1]

theorem both_run : ∃ events p, bothPool.schedule bothOrder = some (events, p) ∧
    Run bothPool events p ∧
    p.threads[0]? = some (.ret (some (⟨bareCluster "demo", "now"⟩, .ok ⟨30⟩))) := by
  obtain ⟨events, p, ran, there⟩ : ∃ events p, bothPool.schedule bothOrder = some (events, p) ∧
      p.threads[0]? = some (.ret (some (⟨bareCluster "demo", "now"⟩, .ok ⟨30⟩))) :=
    ⟨_, _, rfl, rfl⟩
  exact ⟨events, p, ran, run_of_schedule ran, there⟩

theorem both_apart : ∃ events p, bothPool.schedule bothOrder = some (events, p) ∧
    (∃ q traces, p.threads[0]? = some q ∧
      @Traced configPrinter _ plainServer [⟨bareCluster "demo", "now"⟩] none (ownOf 0 events) q
        traces) ∧
    ∀ e ∈ events, ∀ e' ∈ events, ∀ target, ApiOp.target e.op = some target →
      ApiOp.target e'.op = some target → e.thread = e'.thread := by
  obtain ⟨events, p, ran, run, _⟩ := both_run
  obtain ⟨traced, apart⟩ := @requests_as_asked configPrinter _ plainServer emptyServer
    [bareRounds "demo", bareRounds "demo-master"] (by decide) events p run
  exact ⟨events, p, ran, traced 0 (bareRounds "demo") rfl, apart⟩

end Witness

end RSparkOperatorRuns
