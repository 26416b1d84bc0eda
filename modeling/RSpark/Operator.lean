import RSpark.InsertionMap
import RSpark.JsonWriter
import RSpark.Lowering

/- The controller that keeps the objects of a cluster in Kubernetes as its resource asks. The
   API server is the other party: nothing is known of it but what it answers. -/
namespace RSparkOperator
open RSparkNdjson RSparkJsonWriter Calls

section Resource

structure MasterSpec where
  replicas : Int
  examples : Bool
  load : List String
  cpu : String
  memory : String

structure WorkersSpec where
  replicas : Int
  cores : Int
  memoryMb : Int
  cpu : String
  memory : String

structure SparkClusterSpec where
  image : String
  imagePullPolicy : String
  master : MasterSpec
  workers : WorkersSpec

structure SparkCluster where
  name : Option String
  generateName : Option String
  ns : Option String
  uid : Option String
  spec : SparkClusterSpec

def SparkCluster.nameAny (cr : SparkCluster) : String :=
  cr.name.getD (cr.generateName.getD "")

def SparkCluster.nsOrDefault (cr : SparkCluster) : String := cr.ns.getD "default"

/-- The derived default of a section, not the defaults of its fields. -/
def MasterSpec.default : MasterSpec := ⟨0, false, [], "", ""⟩
def WorkersSpec.default : WorkersSpec := ⟨0, 0, 0, "", ""⟩

structure WrittenMaster where
  replicas : Option Int
  examples : Option Bool
  load : Option (List String)
  cpu : Option String
  memory : Option String

structure WrittenWorkers where
  replicas : Option Int
  cores : Option Int
  memoryMb : Option Int
  cpu : Option String
  memory : Option String

structure WrittenSpec where
  image : Option String
  imagePullPolicy : Option String
  master : Option WrittenMaster
  workers : Option WrittenWorkers

def WrittenMaster.read (w : WrittenMaster) : MasterSpec :=
  ⟨w.replicas.getD 1, w.examples.getD false, w.load.getD [], w.cpu.getD "200m",
    w.memory.getD "256Mi"⟩

def WrittenWorkers.read (w : WrittenWorkers) : WorkersSpec :=
  ⟨w.replicas.getD 2, w.cores.getD 2, w.memoryMb.getD 1024, w.cpu.getD "200m",
    w.memory.getD "256Mi"⟩

def WrittenSpec.read (w : WrittenSpec) : SparkClusterSpec :=
  ⟨w.image.getD "rspark:latest", w.imagePullPolicy.getD "Never",
    (w.master.map WrittenMaster.read).getD .default,
    (w.workers.map WrittenWorkers.read).getD .default⟩

inductive Phase where
  | pending | reconciling | ready | failed
  deriving DecidableEq

structure SparkClusterStatus where
  phase : Phase
  masterEndpoint : Option String
  readyWorkers : Nat
  readyMasters : Nat
  lastReconciledAt : Option String

end Resource

section Objects

abbrev Labels := OrderedMap String String

def appLabel : String := "app.kubernetes.io/name"
def rsparkApp : String := "rspark"
def managedByLabel : String := "app.kubernetes.io/managed-by"
def managedByValue : String := "rspark-operator"
def rsparkClusterLabel : String := "spark.rspark.io/cluster"
def rsparkRoleLabel : String := "spark.rspark.io/role"
def rsparkRoleMaster : String := "master"
def rsparkRoleWorker : String := "worker"

structure OwnerReference where
  apiVersion : String
  kind : String
  name : String
  uid : String
  controller : Bool
  blockOwnerDeletion : Bool
  deriving DecidableEq

structure ObjectMeta where
  name : String
  ns : String
  labels : Labels
  ownerReferences : List OwnerReference

structure ServicePort where
  name : String
  port : Nat
  targetPort : Nat

inductive EnvValue where
  | literal (value : String)
  | field (path : String)

structure Probe where
  path : String
  port : Nat
  scheme : String
  periodSeconds : Nat
  failureThreshold : Nat

structure ResourceRequirements where
  requests : Labels
  limits : Labels

structure Container where
  name : String
  image : String
  imagePullPolicy : String
  command : List String
  args : List String
  env : List (String × EnvValue)
  /-- Names and numbers, all TCP. -/
  ports : List (String × Nat)
  startupProbe : Option Probe
  readinessProbe : Option Probe
  livenessProbe : Option Probe
  resources : ResourceRequirements
  /-- Volumes and paths, all mounted for reading only. -/
  volumeMounts : List (String × String)

structure PodSpec where
  serviceAccountName : String
  containers : List Container
  /-- Volumes and the config maps they show. -/
  volumes : List (String × String)
  terminationGracePeriodSeconds : Nat

structure LabelSelectorRequirement where
  key : String
  operator : String
  values : List String

structure LabelSelector where
  matchLabels : Labels
  matchExpressions : List LabelSelectorRequirement

structure DeploymentSpec where
  replicas : Int
  revisionHistoryLimit : Nat
  progressDeadlineSeconds : Nat
  strategy : String
  maxSurge : Nat
  maxUnavailable : Nat
  selector : LabelSelector
  templateLabels : Labels
  pod : PodSpec

inductive Kind where
  | serviceAccount | service | configMap | deployment | podDisruptionBudget
  deriving DecidableEq

inductive Body where
  | serviceAccount (automountToken : Bool)
  | service (type : String) (selector : Labels) (ports : List ServicePort)
  | configMap (data : OrderedMap String String)
  | deployment (spec : DeploymentSpec)
  | podDisruptionBudget (minAvailable maxUnavailable : Option Nat) (selector : LabelSelector)

def Body.kind : Body → Kind
  | .serviceAccount _ => .serviceAccount
  | .service _ _ _ => .service
  | .configMap _ => .configMap
  | .deployment _ => .deployment
  | .podDisruptionBudget _ _ _ => .podDisruptionBudget

structure Object where
  metadata : ObjectMeta
  body : Body

structure Key where
  ns : String
  kind : Kind
  name : String
  deriving DecidableEq

def Object.key (o : Object) : Key := ⟨o.metadata.ns, o.body.kind, o.metadata.name⟩

def ownerRef (cr : SparkCluster) : OwnerReference :=
  ⟨"spark.rspark.io/v1alpha1", "SparkCluster", cr.name.getD "", cr.uid.getD "", true, true⟩

def labels (cr : SparkCluster) (role : String) : Labels :=
  (((OrderedMap.empty.insert appLabel rsparkApp).insert managedByLabel managedByValue).insert
    rsparkClusterLabel cr.nameAny).insert rsparkRoleLabel role

def saName (cr : SparkCluster) : String := cr.nameAny ++ "-" ++ rsparkApp
def masterServiceName (cr : SparkCluster) : String := cr.nameAny ++ "-master"
def masterConfigName (cr : SparkCluster) : String := cr.nameAny ++ "-master-config"
def masterDeploymentName (cr : SparkCluster) : String := masterServiceName cr
def workerDeploymentName (cr : SparkCluster) : String := cr.nameAny ++ "-worker"
def masterPdbName (cr : SparkCluster) : String := cr.nameAny ++ "-master-pdb"
def workerPdbName (cr : SparkCluster) : String := cr.nameAny ++ "-worker-pdb"

def ownedMeta (cr : SparkCluster) (ns name role : String) : ObjectMeta :=
  ⟨name, ns, labels cr role, [ownerRef cr]⟩

def serviceAccount (cr : SparkCluster) (ns : String) : Object :=
  ⟨ownedMeta cr ns (saName cr) "shared", .serviceAccount false⟩

def masterService (cr : SparkCluster) (ns : String) : Object :=
  ⟨ownedMeta cr ns (masterServiceName cr) rsparkRoleMaster,
    .service "ClusterIP" (labels cr rsparkRoleMaster)
      [⟨"api", 7077, 7077⟩, ⟨"dashboard", 8080, 8080⟩]⟩

def masterConfigMap [SerdeJson] (cr : SparkCluster) (ns : String) : Object :=
  let data := SerdeJson.toString (.object
    [("examples", .string (toString cr.spec.master.examples)),
      ("load", .string (",".intercalate cr.spec.master.load))])
  ⟨ownedMeta cr ns (masterConfigName cr) rsparkRoleMaster,
    .configMap (OrderedMap.empty.insert "rspark.json" data)⟩

def buildMasterArgs (cr : SparkCluster) : List String :=
  ["master", "--api-addr", "0.0.0.0:7077", "--dashboard-addr", "0.0.0.0:8080", "--master-id",
    "master-$(POD_NAME)"] ++
    (if cr.spec.master.examples then ["--examples"] else []) ++
    cr.spec.master.load.flatMap fun spec => ["--load", spec]

def probe (path : String) (port periodSeconds failureThreshold : Nat) : Probe :=
  ⟨path, port, "HTTP", periodSeconds, failureThreshold⟩

def resources (cpu memory : String) : ResourceRequirements :=
  let limits := (OrderedMap.empty.insert "cpu" cpu).insert "memory" memory
  ⟨limits, limits⟩

def masterContainer (cr : SparkCluster) : Container where
  name := "rspark"
  image := cr.spec.image
  imagePullPolicy := cr.spec.imagePullPolicy
  command := ["/usr/local/bin/rspark-cli"]
  args := buildMasterArgs cr
  env := [("POD_NAME", .field "metadata.name")]
  ports := [("api", 7077), ("dashboard", 8080)]
  startupProbe := some (probe "/health" 7077 2 60)
  readinessProbe := some (probe "/health" 7077 5 3)
  livenessProbe := some (probe "/health" 7077 20 3)
  resources := resources cr.spec.master.cpu cr.spec.master.memory
  volumeMounts := [(masterConfigName cr, "/etc/rspark")]

def masterDeployment (cr : SparkCluster) (ns : String) : Object :=
  ⟨ownedMeta cr ns (masterDeploymentName cr) rsparkRoleMaster,
    .deployment
      { replicas := cr.spec.master.replicas
        revisionHistoryLimit := 5
        progressDeadlineSeconds := 120
        strategy := "RollingUpdate"
        maxSurge := 1
        maxUnavailable := 0
        selector := ⟨labels cr rsparkRoleMaster, []⟩
        templateLabels := labels cr rsparkRoleMaster
        pod :=
          ⟨saName cr, [masterContainer cr], [(masterConfigName cr, masterConfigName cr)], 30⟩ }⟩

def workerContainer (cr : SparkCluster) : Container where
  name := "rspark"
  image := cr.spec.image
  imagePullPolicy := cr.spec.imagePullPolicy
  command := ["/usr/local/bin/rspark-cli"]
  args := ["worker", "--master", s!"http://{masterServiceName cr}:7077", "--bind", "0.0.0.0:9090",
    "--cores", toString cr.spec.workers.cores, "--memory-mb", toString cr.spec.workers.memoryMb]
  env := [("RSPARK_LOG", .literal "info")]
  ports := []
  startupProbe := none
  readinessProbe := none
  livenessProbe := none
  resources := resources cr.spec.workers.cpu cr.spec.workers.memory
  volumeMounts := []

def workerDeployment (cr : SparkCluster) (ns : String) : Object :=
  ⟨ownedMeta cr ns (workerDeploymentName cr) rsparkRoleWorker,
    .deployment
      { replicas := cr.spec.workers.replicas
        revisionHistoryLimit := 5
        progressDeadlineSeconds := 120
        strategy := "RollingUpdate"
        maxSurge := 1
        maxUnavailable := 1
        selector := ⟨labels cr rsparkRoleWorker, []⟩
        templateLabels := labels cr rsparkRoleWorker
        pod := ⟨saName cr, [workerContainer cr], [], 20⟩ }⟩

def roleSelector (cr : SparkCluster) (role : String) : LabelSelector :=
  ⟨labels cr role, [⟨rsparkRoleLabel, "In", [role]⟩]⟩

def masterPdb (cr : SparkCluster) (ns : String) : Object :=
  ⟨ownedMeta cr ns (masterPdbName cr) rsparkRoleMaster,
    .podDisruptionBudget (some 1) none (roleSelector cr rsparkRoleMaster)⟩

def workerPdb (cr : SparkCluster) (ns : String) : Object :=
  ⟨ownedMeta cr ns (workerPdbName cr) rsparkRoleWorker,
    .podDisruptionBudget none (some 1) (roleSelector cr rsparkRoleWorker)⟩

def children [SerdeJson] (cr : SparkCluster) (ns : String) : List Object :=
  [serviceAccount cr ns, masterService cr ns, masterConfigMap cr ns, masterDeployment cr ns,
    workerDeployment cr ns, masterPdb cr ns, workerPdb cr ns]

end Objects

section Server

structure Pod where
  ns : String
  labels : Option Labels
  /-- Types and states of the conditions, if the pod has a status. -/
  conditions : Option (List (String × String))

def isPodReady (pod : Pod) : Bool :=
  (pod.conditions.map fun conds => conds.any fun (type, status) =>
    type == "Ready" && status == "True").getD false

structure FoundSpec where
  replicas : Option Int

structure FoundDeployment where
  spec : Option FoundSpec

def replicasOf (found : Option FoundDeployment) : Int :=
  (found.bind fun d => d.spec.bind (·.replicas)).getD 0

/-- An error of the API has a code, one of the transport has none. -/
structure KubeError where
  code : Option Nat
  deriving DecidableEq

inductive ApiOp where
  | patch (key : Key) (object : Object)
  | create (key : Key) (object : Object)
  | getDeployment (ns name : String)
  | listPods (ns label value : String)
  | patchStatus (ns name : String) (status : SparkClusterStatus)

@[reducible] def ApiOp.Resp : ApiOp → Type
  | .patch _ _ | .create _ _ | .patchStatus _ _ _ => Except KubeError Unit
  | .getDeployment _ _ => Except KubeError (Option FoundDeployment)
  | .listPods _ _ _ => Except KubeError (List Pod)

inductive Target where
  | object (key : Key)
  | status (ns name : String)
  deriving DecidableEq

inductive Asked where
  | object (key : Key) (object : Object)
  | status (ns name : String) (status : SparkClusterStatus)

def Asked.target : Asked → Target
  | .object key _ => .object key
  | .status ns name _ => .status ns name

def ApiOp.asks : ApiOp → Option Asked
  | .patch key object | .create key object => some (.object key object)
  | .patchStatus ns name status => some (.status ns name status)
  | .getDeployment _ _ | .listPods _ _ _ => none

def ApiOp.target (o : ApiOp) : Option Target := o.asks.map Asked.target

def ApiOp.error : (o : ApiOp) → o.Resp → Option KubeError
  | .patch _ _, .error e | .create _ _, .error e | .patchStatus _ _ _, .error e
  | .getDeployment _ _, .error e | .listPods _ _ _, .error e => some e
  | _, _ => none

/-- An API server. It holds what was asked for when every field that was given is there with its
    value; the changes that others have made to a target are counted. -/
structure ApiServer (σ : Type) where
  exec : (o : ApiOp) → σ → σ × o.Resp
  holds : σ → Asked → Prop
  touched : σ → Target → Nat

variable {σ : Type}

@[reducible] def ApiServer.interface (server : ApiServer σ) : Interface σ :=
  ⟨ApiOp, ApiOp.Resp, server.exec⟩

def ApiServer.Untouched (server : ApiServer σ) (o : ApiOp) (s : σ) (target : Target) : Prop :=
  server.touched (server.exec o s).1 target = server.touched s target

/-- What is documented of the server, for targets that nobody else changes. Of a request that is
    answered with an error nothing is said but that it is about its own target. -/
structure ApiServer.Lawful (server : ApiServer σ) : Prop where
  grows : ∀ o s target, server.touched s target ≤ server.touched (server.exec o s).1 target
  written : ∀ o s asked, ApiOp.asks o = some asked → o.error (server.exec o s).2 = none →
    server.Untouched o s asked.target → server.holds (server.exec o s).1 asked
  kept : ∀ o s asked, ApiOp.target o ≠ some asked.target → server.Untouched o s asked.target →
    server.holds s asked → server.holds (server.exec o s).1 asked
  counted : ∀ ns name s metadata spec found,
    server.holds s (.object ⟨ns, .deployment, name⟩ ⟨metadata, .deployment spec⟩) →
    server.Untouched (.getDeployment ns name) s (.object ⟨ns, .deployment, name⟩) →
    (server.exec (.getDeployment ns name) s).2 = .ok found → replicasOf found = spec.replicas
  listed : ∀ ns label value s pods, (server.exec (.listPods ns label value) s).2 = .ok pods →
    ∀ pod ∈ pods, pod.ns = ns ∧ pod.labels.bind (·.get label) = some value

end Server

section Reconcile

inductive Error where
  | kube (e : KubeError)
  | invalid (message : String)

variable {σ : Type} {server : ApiServer σ}

abbrev ApiProg (server : ApiServer σ) (α : Type) := Prog server.interface (Except Error α)

def andThen {α β : Type} (p : ApiProg server α) (f : α → ApiProg server β) : ApiProg server β :=
  p.bind fun answer =>
    match answer with
    | .ok a => f a
    | .error e => .ret (.error e)

def request (o : ApiOp) {α : Type} (answer : o.Resp → Except KubeError α) : ApiProg server α :=
  .call o fun r => .ret ((answer r).mapError .kube)

def applyOwned (key : Key) (object : Object) : ApiProg server Unit :=
  .call (.patch key object) fun answer =>
    match answer with
    | .ok _ => .ret (.ok ())
    | .error e =>
        if e.code = some 404 then
          .call (.create key object) fun answer => .ret (answer.mapError .kube)
        else .ret (.error (.kube e))

def applyAll : List Object → ApiProg server Unit
  | [] => .ret (.ok ())
  | object :: rest => andThen (applyOwned object.key object) fun _ => applyAll rest

def reconcileChildren [SerdeJson] (cr : SparkCluster) (ns : String) : ApiProg server Unit :=
  applyAll (children cr ns)

def readyIn (role : String) (pods : List Pod) : Nat :=
  pods.countP fun pod =>
    (pod.labels.bind (·.get rsparkRoleLabel)).getD "" = role && isPodReady pod

def phaseOf (masterReplicas workerReplicas : Int) (readyMasters readyWorkers : Nat) : Phase :=
  if masterReplicas = 0 ∨ workerReplicas = 0 then .reconciling
  else if masterReplicas ≤ readyMasters ∧ workerReplicas ≤ readyWorkers then .ready
  else .reconciling

def statusOf (cr : SparkCluster) (ns now : String) (masterReplicas workerReplicas : Int)
    (pods : List Pod) : SparkClusterStatus where
  phase := phaseOf masterReplicas workerReplicas (readyIn rsparkRoleMaster pods)
    (readyIn rsparkRoleWorker pods)
  masterEndpoint := some s!"{masterServiceName cr}.{ns}.svc.cluster.local:7077"
  readyWorkers := readyIn rsparkRoleWorker pods
  readyMasters := readyIn rsparkRoleMaster pods
  lastReconciledAt := some now

def computeStatus (cr : SparkCluster) (ns now : String) : ApiProg server SparkClusterStatus :=
  andThen (request (.getDeployment ns (masterDeploymentName cr)) id) fun master =>
  andThen (request (.getDeployment ns (workerDeploymentName cr)) id) fun workers =>
  andThen (request (.listPods ns rsparkClusterLabel cr.nameAny) id) fun pods =>
    .ret (.ok (statusOf cr ns now (replicasOf master) (replicasOf workers) pods))

def applyStatus (cr : SparkCluster) (status : SparkClusterStatus) : ApiProg server Unit :=
  request (.patchStatus cr.nsOrDefault cr.nameAny status) id

structure Action where
  requeue : Nat

def reconcile [SerdeJson] (cr : SparkCluster) (now : String) : ApiProg server Action :=
  let ns := cr.nsOrDefault
  if cr.spec.image.isEmpty then .ret (.error (.invalid "spec.image is empty"))
  else
    andThen (reconcileChildren cr ns) fun _ =>
    andThen (computeStatus cr ns now) fun status =>
    andThen (applyStatus cr status) fun _ => .ret (.ok ⟨30⟩)

end Reconcile

end RSparkOperator
