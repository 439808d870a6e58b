import Roster.Address.Reader
import Roster.Address.Writer
import Roster.Error
import Roster.Selector
import Roster.Stored.Record
import Roster.Text.Percent

/-!
# Directory.Pods — peers among the pods of a cluster

* `PodQuery`: what to ask for; `PodQuery.path` is the path of the request.
* `Pod`: the parts of a pod that matter. `podsOfBytes` reads the pods of an answer from JSON.
* `Pod.recordAt`: the record of a pod that runs and has an address. `PodOptions.records`: those of a
  whole list; of two pods with the same address the first stays.
* `decodePodList`: from the bytes of an answer to records; a list that is none is an error, never an
  empty list.
-/

namespace Roster

open Json

/-! ## The request -/

/-- A request for the pods of a namespace. -/
structure PodQuery where
  space : String
  labels : Option String
deriving DecidableEq

namespace PodQuery

/-- The request for a pod selector. -/
def ofSelector? : Selector → Option PodQuery
  | .pods space labels => some ⟨space, labels⟩
  | .service _ => none

/-- The path of the request below the root of the API. Empty labels count as none. -/
def path (q : PodQuery) : String :=
  "/namespaces/" ++ Percent.encode q.space ++ "/pods" ++
    match q.labels with
    | none => ""
    | some labels => if labels.isEmpty then "" else "?labelSelector=" ++ Percent.encode labels

end PodQuery

/-! ## The answer -/

/-- A port of a container. -/
structure ContainerPort where
  name : Option String
  port : UInt16
deriving DecidableEq

/-- What is known about one aspect of a pod's state. -/
structure Condition where
  kind : String
  status : String
deriving DecidableEq

/-- The state of a pod. -/
structure PodStatus where
  ip : Option String
  phase : Option String
  conditions : List Condition
deriving DecidableEq

/-- A pod. -/
structure Pod where
  name : Option String
  /-- The labels; of two with the same name the last counts. -/
  labels : List (String × String)
  /-- The ports of each container. -/
  containers : List (List ContainerPort)
  status : Option PodStatus
deriving DecidableEq

namespace ContainerPort

/-- A container port; the name may be missing. -/
def ofTree? (t : Tree) : Option ContainerPort := do
  let f ← Fields.ofTree? ["name", "containerPort"] 2 t
  let name ← f.getD? "name" (Tree.option? Tree.text?) none
  let port ← f.get? "containerPort" Record.portOf?
  return { name, port }

/-- The ports of a container. -/
def listOfContainer? (t : Tree) : Option (List ContainerPort) := do
  let f ← Fields.ofTree? ["ports"] 0 t
  f.getD? "ports" (Tree.list? ofTree?) []

end ContainerPort

/-- A condition; the status may be missing. -/
def Condition.ofTree? (t : Tree) : Option Condition := do
  let f ← Fields.ofTree? ["type", "status"] 1 t
  let kind ← f.get? "type" Tree.text?
  let status ← f.getD? "status" Tree.text? ""
  return { kind, status }

namespace PodStatus

/-- The state of a pod; every part may be missing. -/
def ofTree? (t : Tree) : Option PodStatus := do
  let f ← Fields.ofTree? ["podIP", "phase", "conditions"] 0 t
  let ip ← f.getD? "podIP" (Tree.option? Tree.text?) none
  let phase ← f.getD? "phase" (Tree.option? Tree.text?) none
  let conditions ← f.getD? "conditions" (Tree.list? Condition.ofTree?) []
  return { ip, phase, conditions }

/-- The word `true` in letters of any case. -/
def isTrue (s : String) : Bool :=
  match s.toList with
  | [t, r, u, e] =>
    (t == 't' || t == 'T') && (r == 'r' || r == 'R') && (u == 'u' || u == 'U') &&
      (e == 'e' || e == 'E')
  | _ => false

/-- Whether the first condition of the kind `Ready` holds. A pod without one counts as ready. -/
def isReady (s : PodStatus) : Bool :=
  match s.conditions.find? (·.kind == "Ready") with
  | some condition => isTrue condition.status
  | none => true

/-- The pod runs, or does not say. -/
def runs (s : PodStatus) : Bool :=
  match s.phase with
  | some phase => phase == "Running"
  | none => true

end PodStatus

namespace Pod

/-- The labels of a pod. -/
def labelsOf? (t : Tree) : Option (List (String × String)) := do
  (← t.members?).mapM fun (name, value) => value.text?.map (name, ·)

/-- The name and the labels of a pod. -/
def metadataOf? (t : Tree) : Option (Option String × List (String × String)) := do
  let f ← Fields.ofTree? ["name", "labels"] 0 t
  let name ← f.getD? "name" (Tree.option? Tree.text?) none
  let labels ← f.getD? "labels" labelsOf? []
  return (name, labels)

/-- The ports of the containers of a pod. -/
def containersOf? (t : Tree) : Option (List (List ContainerPort)) := do
  let f ← Fields.ofTree? ["containers"] 0 t
  f.getD? "containers" (Tree.list? ContainerPort.listOfContainer?) []

/-- A pod; every part may be missing. -/
def ofTree? (t : Tree) : Option Pod := do
  let f ← Fields.ofTree? ["metadata", "spec", "status"] 0 t
  let (name, labels) ← f.getD? "metadata" metadataOf? (none, [])
  let containers ← f.getD? "spec" (Tree.option? containersOf?) none
  let status ← f.getD? "status" (Tree.option? PodStatus.ofTree?) none
  return { name, labels, containers := containers.getD [], status }

/-- The labels that name a deployment generation, in the order in which they are looked for. -/
def groupLabels : List String := ["pod-template-hash", "deployment", "deploymentconfig"]

/-- The value of a label. -/
def label? (p : Pod) (name : String) : Option String :=
  (p.labels.reverse.find? (·.1 == name)).map (·.2)

/-- The deployment generation of the pod. -/
def group? (p : Pod) : Option String := groupLabels.findSome? p.label?

end Pod

/-- How pods become records. -/
structure PodOptions where
  /-- The port where no named one applies. -/
  defaultPort : UInt16
  /-- The name of the container port to announce. -/
  portName : Option String
deriving DecidableEq

namespace Pod

/-- The first container port with the wanted name, else the default port. -/
def port (p : Pod) (options : PodOptions) : UInt16 :=
  match options.portName with
  | none => options.defaultPort
  | some name =>
    match p.containers.flatten.find? (·.name == some name) with
    | some found => found.port
    | none => options.defaultPort

/-- The text of the address of a pod that runs. -/
def ip? (p : Pod) : Option String := do
  let status ← p.status
  let ip ← status.ip
  if status.runs then some ip else none

/-- The address of a pod that runs. -/
def address? (p : Pod) : Option Address := do Address.read? (← p.ip?)

def recordAt (p : Pod) (options : PodOptions) (address : Address) : Record where
  address := address.write
  port := p.port options
  group := p.group?
  ready := match p.status with
    | some status => status.isReady
    | none => true

end Pod

/-- A pod that runs and whose address cannot be read. -/
structure InvalidIp where
  pod : String
  ip : String
deriving DecidableEq

/-- Why the address cannot be read. -/
def InvalidIp.message (_ : InvalidIp) : String := Address.syntaxMessage

/-- The complaint about a pod, if its address cannot be read. -/
def Pod.invalidIp? (p : Pod) : Option InvalidIp :=
  match p.ip?, p.address? with
  | some ip, none => some ⟨p.name.getD "<unnamed>", ip⟩
  | _, _ => none

namespace PodOptions

/-- The records of pods, without those at an address already seen. -/
def recordsFrom (options : PodOptions) : List Address → List Pod → List Record
  | _, [] => []
  | seen, p :: rest =>
    match p.address? with
    | none => recordsFrom options seen rest
    | some address =>
      if seen.contains address then recordsFrom options seen rest
      else p.recordAt options address :: recordsFrom options (address :: seen) rest

/-- The records of pods, one for each address. -/
def records (options : PodOptions) (pods : List Pod) : List Record := options.recordsFrom [] pods

end PodOptions

/-- Why an answer is no pod list. -/
inductive PodListError where
  /-- It is not JSON, or of another shape. -/
  | malformed
  /-- It is an object without a list of pods. -/
  | missingItems
deriving DecidableEq

/-- The error as one of discovery. -/
def PodListError.toError : PodListError → DiscoveryError
  | malformed => .decode "malformed pod list"
  | missingItems => .decode "pod list is missing \"items\""

def podsOfBytes (body : List UInt8) : Except PodListError (List Pod) :=
  let items : Option (Option (List Pod)) := do
    let f ← Fields.ofTree? ["items"] 1 (← Tree.ofBytes? body)
    f.getD? "items" (Tree.option? (Tree.list? Pod.ofTree?)) none
  match items with
  | none => .error .malformed
  | some none => .error .missingItems
  | some (some pods) => .ok pods

/-- The records of an answer, with the pods whose address cannot be read. -/
def decodePodList (options : PodOptions) (body : List UInt8) :
    Except PodListError (List Record × List InvalidIp) :=
  (podsOfBytes body).map fun pods => (options.records pods, pods.filterMap Pod.invalidIp?)

end Roster
