import RSpark.Operator
import RSpark.OwnHistory

/- What the controller asks for in the rounds of a cluster, whatever it is answered. -/
namespace RSparkOperatorRounds
open RSparkNdjson RSparkJsonWriter RSparkOperator Calls

section Keys

def childKeys (ns name : String) : List Key :=
  [⟨ns, .serviceAccount, name ++ "-" ++ rsparkApp⟩, ⟨ns, .service, name ++ "-master"⟩,
    ⟨ns, .configMap, name ++ "-master-config"⟩, ⟨ns, .deployment, name ++ "-master"⟩,
    ⟨ns, .deployment, name ++ "-worker"⟩, ⟨ns, .podDisruptionBudget, name ++ "-master-pdb"⟩,
    ⟨ns, .podDisruptionBudget, name ++ "-worker-pdb"⟩]

theorem children_keys [SerdeJson] (cr : SparkCluster) (ns : String) :
    (children cr ns).map Object.key = childKeys ns cr.nameAny := rfl

def ending : Kind → List String
  | .serviceAccount => ["-rspark"]
  | .service => ["-master"]
  | .configMap => ["-master-config"]
  | .deployment => ["-master", "-worker"]
  | .podDisruptionBudget => ["-master-pdb", "-worker-pdb"]

theorem ending_length {kind : Kind} {a b : String} (one : a ∈ ending kind) (two : b ∈ ending kind) :
    a.toList.length = b.toList.length := by
  cases kind <;> simp only [ending, List.mem_cons, List.not_mem_nil, or_false] at one two
  · rw [one, two]
  · rw [one, two]
  · rw [one, two]
  · rcases one with rfl | rfl <;> rcases two with rfl | rfl <;> decide
  · rcases one with rfl | rfl <;> rcases two with rfl | rfl <;> decide

theorem mem_childKeys {ns name : String} {key : Key} (mem : key ∈ childKeys ns name) :
    key.ns = ns ∧ ∃ suffix ∈ ending key.kind, key.name = name ++ suffix := by
  have joined : "-" ++ rsparkApp = "-rspark" := by decide
  have app : name ++ "-" ++ rsparkApp = name ++ "-rspark" := by
    rw [String.append_assoc, joined]
  simp only [childKeys, List.mem_cons, List.not_mem_nil, or_false, app] at mem
  rcases mem with rfl | rfl | rfl | rfl | rfl | rfl | rfl <;>
    exact ⟨rfl, _, by simp [ending], rfl⟩

theorem childKeys_apart {ns ns' name name' : String} {key : Key} (one : key ∈ childKeys ns name)
    (two : key ∈ childKeys ns' name') : (ns, name) = (ns', name') := by
  obtain ⟨rfl, suffix, listed, named⟩ := mem_childKeys one
  obtain ⟨rfl, suffix', listed', named'⟩ := mem_childKeys two
  have same : name.toList ++ suffix.toList = name'.toList ++ suffix'.toList := by
    rw [← String.toList_append, ← String.toList_append, ← named, ← named']
  have front := (List.append_inj' same (ending_length listed listed')).1
  rw [String.toList_injective front]

theorem children_distinct [SerdeJson] (cr : SparkCluster) (ns : String) :
    ((children cr ns).map Object.key).Nodup := by
  have differ {a b : String} (other : a ≠ b) : cr.nameAny ++ a ≠ cr.nameAny ++ b := fun same =>
    other ((String.append_right_inj _).mp same)
  have deployments := differ (show "-master" ≠ "-worker" by decide)
  have budgets := differ (show "-master-pdb" ≠ "-worker-pdb" by decide)
  rw [children_keys]
  simp [childKeys, deployments, budgets]

def targets (ns name : String) : List Target :=
  .status ns name :: (childKeys ns name).map .object

theorem targets_apart {ns ns' name name' : String} {target : Target}
    (one : target ∈ targets ns name) (two : target ∈ targets ns' name') :
    (ns, name) = (ns', name') := by
  rcases List.mem_cons.mp one with rfl | object
  · rcases List.mem_cons.mp two with same | other
    · obtain ⟨rfl, rfl⟩ := Target.status.inj same
      rfl
    · obtain ⟨key, _, same⟩ := List.mem_map.mp other
      cases same
  · obtain ⟨key, mem, rfl⟩ := List.mem_map.mp object
    rcases List.mem_cons.mp two with same | other
    · cases same
    · obtain ⟨key', mem', same⟩ := List.mem_map.mp other
      obtain rfl := Target.object.inj same
      exact childKeys_apart mem mem'

end Keys

section Requests
variable {σ : Type} {server : ApiServer σ}

abbrev ApiEvent (server : ApiServer σ) : Type := Event server.interface

def failedWith (e : ApiEvent server) : Option KubeError := ApiOp.error e.op e.resp

/-- The patch of an object that is not there. -/
def Missed (e : ApiEvent server) : Prop :=
  ∃ key object err, e.op = .patch key object ∧ failedWith e = some err ∧ err.code = some 404

def Went (e : ApiEvent server) : Prop := failedWith e = none ∨ Missed e

def acknowledged (e : ApiEvent server) : Option Asked :=
  if failedWith e = none then ApiOp.asks e.op else none

def LastAsked (asked : Asked) (events : List (ApiEvent server)) : Prop :=
  ∃ before e after, events = before ++ e :: after ∧ acknowledged e = some asked ∧
    ∀ later ∈ after, ApiOp.target later.op ≠ some asked.target

/-- Nothing is created but what was just missed. -/
def CreatesMissed (events : List (ApiEvent server)) : Prop :=
  ∀ before e after key object, events = before ++ e :: after → e.op = .create key object →
    ∃ front missed, before = front ++ [missed] ∧ missed.op = .patch key object ∧ Missed missed

theorem acknowledged_target {e : ApiEvent server} {asked : Asked}
    (done : acknowledged e = some asked) : ApiOp.target e.op = some asked.target := by
  unfold acknowledged at done
  split at done
  · rw [ApiOp.target, done, Option.map_some]
  · cases done

theorem lastAsked_before {asked : Asked} {events more : List (ApiEvent server)}
    (last : LastAsked asked events)
    (others : ∀ e ∈ more, ApiOp.target e.op ≠ some asked.target) :
    LastAsked asked (events ++ more) := by
  obtain ⟨before, e, after, rfl, done, quiet⟩ := last
  refine ⟨before, e, after ++ more, by simp, done, fun later mem => ?_⟩
  rcases List.mem_append.mp mem with near | far
  · exact quiet later near
  · exact others later far

theorem lastAsked_after {asked : Asked} {events : List (ApiEvent server)}
    (last : LastAsked asked events) (front : List (ApiEvent server)) :
    LastAsked asked (front ++ events) := by
  obtain ⟨before, e, after, rfl, done, quiet⟩ := last
  exact ⟨front ++ before, e, after, by simp, done, quiet⟩

theorem lastAsked_snoc {asked : Asked} {events : List (ApiEvent server)} {e : ApiEvent server}
    (last : LastAsked asked (events ++ [e])) : acknowledged e = some asked ∨
      LastAsked asked events ∧ ApiOp.target e.op ≠ some asked.target := by
  obtain ⟨before, found, after, same, done, quiet⟩ := last
  rcases List.eq_nil_or_concat after with rfl | ⟨after', x, rfl⟩
  · obtain ⟨_, last⟩ := List.append_inj' same rfl
    rw [List.singleton_inj.mp last]
    exact Or.inl done
  · have split : events ++ [e] = (before ++ found :: after') ++ [x] := by
      rw [same, List.append_assoc, List.cons_append, List.concat_eq_append]
    obtain ⟨rfl, last⟩ := List.append_inj' split rfl
    obtain rfl := List.singleton_inj.mp last
    refine Or.inr ⟨⟨before, found, after', rfl, done, fun later mem => ?_⟩, ?_⟩
    · exact quiet later (by simp [mem])
    · exact quiet e (by simp)

theorem createsMissed_append {events more : List (ApiEvent server)} (one : CreatesMissed events)
    (two : CreatesMissed more) : CreatesMissed (events ++ more) := by
  intro before e after key object same creates
  rcases List.append_eq_append_iff.mp same with ⟨rest, rfl, split⟩ | ⟨rest, split, tail⟩
  · obtain ⟨front, missed, rfl, found⟩ := two rest e after key object split creates
    exact ⟨events ++ front, missed, by simp, found⟩
  · cases rest with
    | nil =>
      have here : more = [] ++ e :: after := tail.symm
      obtain ⟨front, missed, none, _⟩ := two [] e after key object here creates
      exact absurd none.symm (by simp)
    | cons x rest =>
      obtain ⟨rfl, _⟩ := List.cons.inj tail
      exact one before e rest key object split creates

theorem createsMissed_none {events : List (ApiEvent server)}
    (none : ∀ e ∈ events, ∀ key object, e.op ≠ .create key object) : CreatesMissed events :=
  fun before e _ key object same creates =>
    absurd creates (none e (same ▸ List.mem_append_right before List.mem_cons_self) key object)

end Requests

section Steps
variable {σ : Type} {server : ApiServer σ} {own : List (ApiEvent server)} {α β : Type}

/-- The last request has failed with the error, after others that have not. -/
def Failed (e : Error) (own : List (ApiEvent server)) : Prop :=
  ∃ before last err, own = before ++ [last] ∧ (∀ x ∈ before, Went x) ∧
    failedWith last = some err ∧ ¬Missed last ∧ e = .kube err

def Stops (p : ApiProg server α) : Prop :=
  ∀ own q, Reaches p own q → (∀ e, q = .ret (.error e) → Failed e own) ∧
    ((∀ e, q ≠ .ret (.error e)) → ∀ x ∈ own, Went x)

theorem stops_ok (a : α) : Stops (.ret (.ok a) : ApiProg server α) := by
  intro own q reached
  cases reached with
  | here =>
    refine ⟨fun e same => ?_, fun _ x mem => absurd mem List.not_mem_nil⟩
    cases same

theorem failed_after {e : Error} {before after : List (ApiEvent server)}
    (went : ∀ x ∈ before, Went x) (failed : Failed e after) : Failed e (before ++ after) := by
  obtain ⟨front, last, err, rfl, others, rest⟩ := failed
  refine ⟨before ++ front, last, err, (List.append_assoc ..).symm, fun x mem => ?_, rest⟩
  exact (List.mem_append.mp mem).elim (went x) (others x)

theorem stops_andThen {p : ApiProg server α} {f : α → ApiProg server β} (first : Stops p)
    (next : ∀ a, Stops (f a)) : Stops (andThen p f) := by
  intro own q reached
  obtain ⟨p', there, going, rfl⟩ | ⟨x, before, after, rfl, there, later⟩ := reaches_bind reached
  · have went := (first own p' there).2 fun e => going (.error e)
    exact ⟨fun e same => absurd same (bind_ne_ret going _), fun _ => went⟩
  · cases x with
    | error e =>
      cases later with
      | here =>
        rw [List.append_nil]
        refine ⟨fun e' same => ?_, fun none => absurd rfl (none e)⟩
        obtain rfl := Except.error.inj (Prog.ret.inj same)
        exact (first before _ there).1 e rfl
    | ok a =>
      have went := (first before _ there).2 fun e same => by cases same
      obtain ⟨fails, goes⟩ := next a after q later
      refine ⟨fun e same => failed_after went (fails e same), fun none x mem => ?_⟩
      exact (List.mem_append.mp mem).elim (went x) (goes none x)

theorem stops_request {o : ApiOp} {answer : o.Resp → Except KubeError α}
    (other : ∀ key object, o ≠ .patch key object)
    (answers : ∀ r, o.error r = (match answer r with | .ok _ => none | .error e => some e)) :
    Stops (request o answer : ApiProg server α) := by
  intro own q reached
  cases reached with
  | here =>
    refine ⟨fun e same => ?_, fun _ x mem => absurd mem List.not_mem_nil⟩
    cases same
  | call i r rest =>
    obtain rfl := reaches_ret rest
    cases rest with
    | here =>
      have said := answers r
      cases found : answer r with
      | ok a =>
        rw [found] at said
        refine ⟨fun e same => ?_, fun _ x mem => Or.inl (List.mem_singleton.mp mem ▸ said)⟩
        cases same
      | error err =>
        rw [found] at said
        refine ⟨fun e same => ?_, fun none => absurd rfl (none (.kube err))⟩
        obtain rfl := Except.error.inj (Prog.ret.inj same)
        refine ⟨[], _, err, rfl, fun x mem => absurd mem List.not_mem_nil, said, ?_, rfl⟩
        rintro ⟨key, object, _, patches, _⟩
        exact other key object patches

theorem stops_applyOwned (key : Key) (object : Object) :
    Stops (applyOwned key object : ApiProg server Unit) := by
  intro own q reached
  cases reached with
  | here =>
    refine ⟨fun e same => ?_, fun _ x mem => absurd mem List.not_mem_nil⟩
    cases same
  | call i r rest =>
    cases r with
    | ok u =>
      cases rest with
      | here =>
        refine ⟨fun e same => ?_, fun _ x mem => Or.inl (List.mem_singleton.mp mem ▸ rfl)⟩
        cases same
    | error err =>
      by_cases missing : err.code = some 404
      · simp only [missing, if_true] at rest
        have missed : Missed (⟨i, .patch key object, .error err⟩ : ApiEvent server) :=
          ⟨key, object, err, rfl, rfl, missing⟩
        have went : ∀ x ∈ [(⟨i, .patch key object, .error err⟩ : ApiEvent server)], Went x :=
          fun x mem => Or.inr (List.mem_singleton.mp mem ▸ missed)
        have creation : Stops (request (.create key object) id : ApiProg server Unit) := by
          refine stops_request (fun _ _ same => by cases same) fun r => ?_
          cases r <;> rfl
        obtain ⟨fails, goes⟩ := creation _ q rest
        refine ⟨fun e same => failed_after went (fails e same), fun none x mem => ?_⟩
        rcases List.mem_cons.mp mem with rfl | later
        · exact Or.inr missed
        · exact goes none x later
      · simp only [missing, if_false] at rest
        cases rest with
        | here =>
          refine ⟨fun e same => ?_, fun none => absurd rfl (none (.kube err))⟩
          obtain rfl := Except.error.inj (Prog.ret.inj same)
          refine ⟨[], _, err, rfl, fun x mem => absurd mem List.not_mem_nil, rfl, ?_, rfl⟩
          rintro ⟨_, _, found, _, failed, missing'⟩
          obtain rfl := Option.some.inj failed
          exact missing missing'

theorem stops_applyAll (objects : List Object) :
    Stops (applyAll objects : ApiProg server Unit) := by
  induction objects with
  | nil => exact stops_ok ()
  | cons object rest ih => exact stops_andThen (stops_applyOwned _ object) fun _ => ih

theorem stops_computeStatus (cr : SparkCluster) (ns now : String) :
    Stops (computeStatus cr ns now : ApiProg server SparkClusterStatus) := by
  refine stops_andThen (stops_request (fun _ _ same => by cases same) fun r => ?_) fun _ =>
    stops_andThen (stops_request (fun _ _ same => by cases same) fun r => ?_) fun _ =>
    stops_andThen (stops_request (fun _ _ same => by cases same) fun r => ?_) fun _ => stops_ok _
  all_goals cases r <;> rfl

theorem stops_applyStatus (cr : SparkCluster) (status : SparkClusterStatus) :
    Stops (applyStatus cr status : ApiProg server Unit) :=
  stops_request (fun _ _ same => by cases same) fun r => by cases r <;> rfl

end Steps

section Creations
variable {σ : Type} {server : ApiServer σ} {α β : Type}

/-- A program that creates only what it has missed. -/
def Careful (p : ApiProg server α) : Prop := ∀ own q, Reaches p own q → CreatesMissed own

theorem careful_andThen {p : ApiProg server α} {f : α → ApiProg server β} (first : Careful p)
    (next : ∀ a, Careful (f a)) : Careful (andThen p f) := by
  intro own q reached
  obtain ⟨p', there, _⟩ | ⟨x, before, after, rfl, there, later⟩ := reaches_bind reached
  · exact first own p' there
  · refine createsMissed_append (first before _ there) ?_
    cases x with
    | error e =>
      cases later with
      | here => exact createsMissed_none fun e mem => absurd mem List.not_mem_nil
    | ok a => exact next a after q later

theorem careful_only {p : ApiProg server α}
    (only : Only (fun o => ∀ key object, o ≠ ApiOp.create key object) p) : Careful p :=
  fun _ _ reached => createsMissed_none fun e mem => reaches_only reached only e mem

theorem careful_applyOwned (key : Key) (object : Object) :
    Careful (applyOwned key object : ApiProg server Unit) := by
  intro own q reached
  have patches (i : Nat) (r : Except KubeError Unit) :
      CreatesMissed [(⟨i, .patch key object, r⟩ : ApiEvent server)] := by
    refine createsMissed_none fun e mem key' object' same => ?_
    rw [List.mem_singleton.mp mem] at same
    cases same
  cases reached with
  | here => exact createsMissed_none fun e mem => absurd mem List.not_mem_nil
  | call i r rest =>
    cases r with
    | ok u =>
      cases rest with
      | here => exact patches i _
    | error err =>
      by_cases missing : err.code = some 404
      · simp only [missing, if_true] at rest
        cases rest with
        | here => exact patches i _
        | call j r done =>
          cases done with
          | here =>
            intro before e after key' object' same creates
            rcases before with _ | ⟨x, _ | ⟨y, before⟩⟩
            · obtain ⟨rfl, _⟩ := List.cons.inj same
              cases creates
            · obtain ⟨first, second⟩ := List.cons.inj same
              rw [← (List.cons.inj second).1] at creates
              obtain ⟨rfl, rfl⟩ := ApiOp.create.inj creates
              rw [← first]
              exact ⟨[], _, rfl, rfl, key, object, err, rfl, rfl, missing⟩
            · have short := congrArg List.length same
              simp at short
      · simp only [missing, if_false] at rest
        cases rest with
        | here => exact patches i _

theorem careful_applyAll (objects : List Object) :
    Careful (applyAll objects : ApiProg server Unit) := by
  induction objects with
  | nil => exact careful_only trivial
  | cons object rest ih => exact careful_andThen (careful_applyOwned _ object) fun _ => ih

end Creations

section Done
variable {σ : Type} {server : ApiServer σ} {own : List (ApiEvent server)} {α β : Type}

theorem andThen_ok {p : ApiProg server α} {f : α → ApiProg server β} {b : β}
    (reached : Reaches (andThen p f) own (.ret (.ok b))) : ∃ a before after,
      own = before ++ after ∧ Reaches p before (.ret (.ok a)) ∧
        Reaches (f a) after (.ret (.ok b)) := by
  obtain ⟨p', _, going, same⟩ | ⟨x, before, after, rfl, there, later⟩ := reaches_bind reached
  · exact absurd same.symm (bind_ne_ret going _)
  · cases x with
    | error e => cases later
    | ok a => exact ⟨a, before, after, rfl, there, later⟩

theorem request_ok {o : ApiOp} {answer : o.Resp → Except KubeError α} {a : α}
    (reached : Reaches (request o answer : ApiProg server α) own (.ret (.ok a))) :
    ∃ i r, own = [⟨i, o, r⟩] ∧ answer r = .ok a := by
  cases reached with
  | call i r rest =>
    obtain ⟨rfl, same⟩ := reaches_end rest
    refine ⟨i, r, rfl, ?_⟩
    cases found : answer r with
    | ok x =>
      rw [found] at same
      exact congrArg _ (Except.ok.inj same)
    | error e =>
      rw [found] at same
      cases same

theorem applyOwned_ok {key : Key} {object : Object}
    (reached : Reaches (applyOwned key object : ApiProg server Unit) own (.ret (.ok ()))) :
    ∃ front last, own = front ++ [last] ∧ acknowledged last = some (.object key object) ∧
      front.filterMap acknowledged = [] ∧
      ∀ e ∈ own, ApiOp.target e.op = some (.object key) := by
  cases reached with
  | call i r rest =>
    cases r with
    | ok u =>
      cases rest with
      | here => exact ⟨[], _, rfl, rfl, rfl, fun e mem => List.mem_singleton.mp mem ▸ rfl⟩
    | error err =>
      by_cases missing : err.code = some 404
      · simp only [missing, if_true] at rest
        cases rest with
        | call j r done =>
          cases r with
          | error e => cases done
          | ok u =>
            cases done with
            | here =>
              refine ⟨[_], _, rfl, rfl, rfl, fun e mem => ?_⟩
              rcases List.mem_cons.mp mem with rfl | later
              · rfl
              · rw [List.mem_singleton.mp later]
                rfl
      · simp only [missing, if_false] at rest
        cases rest

def Object.asked (o : Object) : Asked := .object o.key o

theorem applyAll_ok {objects : List Object} (distinct : (objects.map Object.key).Nodup)
    (reached : Reaches (applyAll objects : ApiProg server Unit) own (.ret (.ok ()))) :
    own.filterMap acknowledged = objects.map Object.asked ∧
      (∀ o ∈ objects, LastAsked (Object.asked o) own) ∧
      ∀ e ∈ own, ∃ o ∈ objects, ApiOp.target e.op = some (.object o.key) := by
  induction objects generalizing own with
  | nil =>
    cases reached with
    | here => exact ⟨rfl, fun o mem => absurd mem List.not_mem_nil, fun e mem => absurd mem
        List.not_mem_nil⟩
  | cons object rest ih =>
    obtain ⟨apart, distinct⟩ := List.nodup_cons.mp distinct
    obtain ⟨_, before, after, rfl, there, later⟩ := andThen_ok reached
    obtain ⟨front, last, rfl, done, others, about⟩ := applyOwned_ok there
    obtain ⟨listed, lasts, abouts⟩ := ih distinct later
    refine ⟨?_, fun o mem => ?_, fun e mem => ?_⟩
    · rw [List.filterMap_append, List.filterMap_append, others, listed, List.filterMap_cons, done]
      rfl
    · rcases List.mem_cons.mp mem with rfl | further
      · refine lastAsked_before ⟨front, last, [], rfl, done, fun later mem => ?_⟩ fun e mem => ?_
        · exact absurd mem List.not_mem_nil
        · obtain ⟨o', mem', target⟩ := abouts e mem
          rw [target]
          intro same
          refine apart (List.mem_map.mpr ⟨o', mem', ?_⟩)
          exact Target.object.inj (Option.some.inj same)
      · exact lastAsked_after (lasts o further) _
    · rcases List.mem_append.mp mem with near | far
      · exact ⟨object, List.mem_cons_self, about e near⟩
      · obtain ⟨o', mem', target⟩ := abouts e far
        exact ⟨o', List.mem_cons_of_mem _ mem', target⟩

end Done

section Rounds
variable [SerdeJson] {σ : Type} {server : ApiServer σ} {own : List (ApiEvent server)}

structure Round where
  cr : SparkCluster
  now : String

def Round.ns (round : Round) : String := round.cr.nsOrDefault
def Round.name (round : Round) : String := round.cr.nameAny

/-- The rounds of one cluster, one after the other; the answer is that of the last. -/
def rounds (last : Option (Round × Except Error Action)) :
    List Round → Prog server.interface (Option (Round × Except Error Action))
  | [] => .ret last
  | round :: rest => (reconcile round.cr round.now).bind fun answer =>
      rounds (some (round, answer)) rest

/-- What a round may ask for: the objects its resource asks for, the deployments and the pods of
    the cluster, and its status. -/
def Asks (round : Round) : ApiOp → Prop
  | .patch key object | .create key object =>
      object ∈ children round.cr round.ns ∧ key = object.key
  | .getDeployment ns name => ns = round.ns ∧
      (name = masterDeploymentName round.cr ∨ name = workerDeploymentName round.cr)
  | .listPods ns label value => ns = round.ns ∧ label = rsparkClusterLabel ∧ value = round.name
  | .patchStatus ns name _ => ns = round.ns ∧ name = round.name

/-- Every object was acknowledged in its order; then both deployments and the pods were read, and
    the status that follows from them was acknowledged. -/
inductive Complete (round : Round) : List (ApiEvent server) → Prop where
  | told {applied : List (ApiEvent server)} (i j k l : Nat)
      {master workers : Option FoundDeployment} {pods : List Pod}
      (order : applied.filterMap acknowledged = (children round.cr round.ns).map Object.asked)
      (last : ∀ child ∈ children round.cr round.ns, LastAsked (Object.asked child) applied) :
      Complete round (applied ++
        [⟨i, .getDeployment round.ns (masterDeploymentName round.cr), .ok master⟩,
          ⟨j, .getDeployment round.ns (workerDeploymentName round.cr), .ok workers⟩,
          ⟨k, .listPods round.ns rsparkClusterLabel round.name, .ok pods⟩,
          ⟨l, .patchStatus round.ns round.name (statusOf round.cr round.ns round.now
            (replicasOf master) (replicasOf workers) pods), .ok ()⟩])

structure Trace (server : ApiServer σ) where
  round : Round
  own : List (ApiEvent server)
  answer : Option (Except Error Action)

def Trace.Refused (t : Trace server) (e : Error) : Prop :=
  t.round.cr.spec.image.isEmpty = true ∧ t.own = [] ∧ e = .invalid "spec.image is empty"

structure Trace.Proper (t : Trace server) : Prop where
  asks : ∀ e ∈ t.own, Asks t.round e.op
  creates : CreatesMissed t.own
  goes : (∀ e, t.answer ≠ some (.error e)) → ∀ e ∈ t.own, Went e
  fails : ∀ e, t.answer = some (.error e) → t.Refused e ∨ Failed e t.own
  done : ∀ action, t.answer = some (.ok action) → Complete t.round t.own

omit [SerdeJson] in
theorem andThen_only {may : ApiOp → Prop} {α β : Type} {p : ApiProg server α}
    {f : α → ApiProg server β} (first : Only may p) (next : ∀ a, Only may (f a)) :
    Only may (andThen p f) := by
  refine only_bind first fun answer => ?_
  cases answer with
  | ok a => exact next a
  | error e => exact trivial

theorem applyAll_asks {round : Round} {objects : List Object}
    (listed : ∀ o ∈ objects, o ∈ children round.cr round.ns) :
    Only (Asks round) (applyAll objects : ApiProg server Unit) := by
  induction objects with
  | nil => exact trivial
  | cons object rest ih =>
    have mine := listed object List.mem_cons_self
    refine andThen_only ⟨⟨mine, rfl⟩, fun (r : Except KubeError Unit) => ?_⟩ fun _ =>
      ih fun o mem => listed o (List.mem_cons_of_mem _ mem)
    cases r with
    | ok u => exact trivial
    | error e =>
      show Only _ (if e.code = some 404 then _ else _)
      split
      · exact ⟨⟨mine, rfl⟩, fun _ => trivial⟩
      · exact trivial

def work (round : Round) : ApiProg server Action :=
  andThen (reconcileChildren round.cr round.ns) fun _ =>
  andThen (computeStatus round.cr round.ns round.now) fun status =>
  andThen (applyStatus round.cr status) fun _ => .ret (.ok ⟨30⟩)

theorem reconcile_eq (round : Round) :
    (reconcile round.cr round.now : ApiProg server Action) =
      if round.cr.spec.image.isEmpty then .ret (.error (.invalid "spec.image is empty"))
      else work round := rfl

theorem work_asks (round : Round) : Only (Asks round) (work round : ApiProg server Action) := by
  refine andThen_only (applyAll_asks fun _ mem => mem) fun _ =>
    andThen_only ?_ fun status => andThen_only ⟨⟨rfl, rfl⟩, fun _ => trivial⟩ fun _ => trivial
  exact andThen_only ⟨⟨rfl, Or.inl rfl⟩, fun _ => trivial⟩ fun _ =>
    andThen_only ⟨⟨rfl, Or.inr rfl⟩, fun _ => trivial⟩ fun _ =>
      andThen_only ⟨⟨rfl, rfl, rfl⟩, fun _ => trivial⟩ fun _ => trivial

theorem work_careful (round : Round) : Careful (work round : ApiProg server Action) := by
  refine careful_andThen (careful_applyAll _) fun _ => careful_only ?_
  have reads {o : ApiOp} (quiet : ∀ key object, o ≠ .create key object) {α : Type}
      (answer : o.Resp → Except KubeError α) :
      Only (fun o => ∀ key object, o ≠ ApiOp.create key object)
        (request o answer : ApiProg server α) := ⟨quiet, fun _ => trivial⟩
  refine andThen_only ?_ fun status =>
    andThen_only (reads (fun _ _ same => by cases same) _) fun _ => trivial
  exact andThen_only (reads (fun _ _ same => by cases same) _) fun _ =>
    andThen_only (reads (fun _ _ same => by cases same) _) fun _ =>
      andThen_only (reads (fun _ _ same => by cases same) _) fun _ => trivial

theorem work_stops (round : Round) : Stops (work round : ApiProg server Action) :=
  stops_andThen (stops_applyAll _) fun _ =>
    stops_andThen (stops_computeStatus _ _ _) fun _ =>
      stops_andThen (stops_applyStatus _ _) fun _ => stops_ok _

theorem work_complete {round : Round} {action : Action}
    (reached : Reaches (work round : ApiProg server Action) own (.ret (.ok action))) :
    Complete round own := by
  obtain ⟨_, applied, _, rfl, children, reached⟩ := andThen_ok reached
  obtain ⟨status, _, _, rfl, looked, reached⟩ := andThen_ok reached
  obtain ⟨_, _, _, rfl, told, reached⟩ := andThen_ok reached
  obtain ⟨rfl, _⟩ := reaches_end reached
  obtain ⟨master, _, _, rfl, one, looked⟩ := andThen_ok looked
  obtain ⟨workers, _, _, rfl, two, looked⟩ := andThen_ok looked
  obtain ⟨pods, _, _, rfl, three, looked⟩ := andThen_ok looked
  obtain ⟨rfl, same⟩ := reaches_end looked
  obtain rfl := Except.ok.inj same
  obtain ⟨i, _, rfl, rfl⟩ := request_ok one
  obtain ⟨j, _, rfl, rfl⟩ := request_ok two
  obtain ⟨k, _, rfl, rfl⟩ := request_ok three
  obtain ⟨l, _, rfl, rfl⟩ := request_ok told
  obtain ⟨order, last, _⟩ := applyAll_ok (children_distinct round.cr round.ns) children
  exact .told i j k l order last

def answerOf {ρ : Type} : Prog server.interface ρ → Option ρ
  | .ret a => some a
  | _ => none

omit [SerdeJson] in
theorem answerOf_eq {ρ : Type} {q : Prog server.interface ρ} {a : ρ} (same : answerOf q = some a) :
    q = .ret a := by
  cases q with
  | ret b => exact congrArg _ (Option.some.inj same)
  | abort => cases same
  | call o k => cases same

theorem reconcile_proper {round : Round} {q : ApiProg server Action}
    (reached : Reaches (reconcile round.cr round.now) own q) :
    (Trace.mk round own (answerOf q)).Proper := by
  rw [reconcile_eq] at reached
  by_cases empty : round.cr.spec.image.isEmpty = true
  · rw [if_pos empty] at reached
    cases reached with
    | here =>
      have none : ∀ e ∈ ([] : List (ApiEvent server)), False := fun e mem =>
        List.not_mem_nil mem
      refine ⟨fun e mem => (none e mem).elim, createsMissed_none fun e mem => (none e mem).elim,
        fun _ e mem => (none e mem).elim, fun e same => Or.inl ⟨empty, rfl, ?_⟩, fun _ same => ?_⟩
      · exact (Except.error.inj (Option.some.inj same)).symm
      · cases Option.some.inj same
  · rw [if_neg empty] at reached
    obtain ⟨fails, goes⟩ := work_stops round own q reached
    refine ⟨reaches_only reached (work_asks round), work_careful round own q reached,
      fun none => goes fun e same => none e (same ▸ rfl),
      fun e same => Or.inr (fails e (answerOf_eq same)), fun action same => ?_⟩
    exact work_complete (answerOf_eq same ▸ reached)

def Trace.outcome (t : Trace server) : Option (Round × Except Error Action) :=
  t.answer.map fun answer => (t.round, answer)

/-- What a cluster has asked for, cut into its rounds: each was begun when the one before it was
    over, and the answer is that of the last. -/
structure Traced (all : List Round) (last : Option (Round × Except Error Action))
    (own : List (ApiEvent server))
    (q : Prog server.interface (Option (Round × Except Error Action)))
    (traces : List (Trace server)) : Prop where
  proper : ∀ t ∈ traces, t.Proper
  own : traces.flatMap Trace.own = own
  begun : traces.map Trace.round <+: all
  waited : traces.Pairwise fun earlier _ => earlier.answer ≠ none
  ended : ∀ x, q = .ret x →
    traces.map Trace.round = all ∧ x = traces.getLast?.elim last Trace.outcome

theorem rounds_traced {all : List Round} {last : Option (Round × Except Error Action)}
    {q : Prog server.interface (Option (Round × Except Error Action))}
    (reached : Reaches (rounds last all) own q) : ∃ traces, Traced all last own q traces := by
  induction all generalizing last own with
  | nil =>
    cases reached with
    | here =>
      exact ⟨[], fun t mem => absurd mem List.not_mem_nil, rfl, List.prefix_rfl, .nil,
        fun x same => ⟨rfl, (Prog.ret.inj same).symm⟩⟩
  | cons round rest ih =>
    obtain ⟨p', there, going, rfl⟩ | ⟨answer, before, after, rfl, there, later⟩ :=
      reaches_bind reached
    · refine ⟨[⟨round, own, answerOf p'⟩], fun t mem => ?_, List.append_nil own, ⟨rest, rfl⟩,
        List.pairwise_singleton _ _, fun x same => absurd same (bind_ne_ret going x)⟩
      rw [List.mem_singleton.mp mem]
      exact reconcile_proper there
    · obtain ⟨traces, proper, same, begun, waited, ended⟩ := ih later
      refine ⟨⟨round, before, some answer⟩ :: traces, fun t mem => ?_, congrArg _ same,
        List.cons_prefix_cons.mpr ⟨rfl, begun⟩, List.pairwise_cons.mpr ⟨fun t _ none => ?_, waited⟩,
        fun x equal => ?_⟩
      · rcases List.mem_cons.mp mem with rfl | further
        · exact reconcile_proper there
        · exact proper t further
      · cases none
      · obtain ⟨whole, found⟩ := ended x equal
        refine ⟨congrArg _ whole, found.trans ?_⟩
        rw [List.getLast?_cons]
        cases traces.getLast? <;> rfl

end Rounds

end RSparkOperatorRounds
