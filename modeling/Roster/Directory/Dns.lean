import Roster.Address.Reader
import Roster.Address.Writer
import Roster.Duration
import Roster.Error
import Roster.Peer
import Roster.Selector

/-!
# Directory.Dns — peers behind a service name

* `Endpoint`: an address and a port. `Dns.normalise` gives endpoints without a port that of the
  service.
* `SrvResolver`, `Dns`: whom to ask. What the system and the network answer, and how long that takes, are
  fields: they are given from outside. `Dns.ReadsLiterals`: what is relied on for a host that is an IP
  literal.
* `Dns.records`: a record for each endpoint, in the order of addresses and ports, each once.
* `Dns.srvRecords?`: the records of an SRV answer, or none where the addresses of the name itself
  apply.
* `Dns.list`: the records of a service name.
-/

namespace Roster

/-- An address with a port. -/
structure Endpoint where
  address : Address
  port : UInt16
deriving DecidableEq

/-- The place of the endpoint in the order of endpoints. -/
def Endpoint.rank (e : Endpoint) : List Nat := e.address.rank ++ [e.port.toNat]

/-- Puts an endpoint at its place in an ascending list, unless it is there. -/
def Endpoint.place (e : Endpoint) : List Endpoint → List Endpoint
  | [] => [e]
  | e' :: rest =>
    if e.rank < e'.rank then e :: e' :: rest
    else if e = e' then e' :: rest
    else e' :: Endpoint.place e rest

/-- Somebody to ask for SRV records. An error is its text. -/
structure SrvResolver where
  /-- The targets that the SRV records of a service name, and their ports. -/
  services : String → Except String (List (String × UInt16))
  /-- The addresses of a target. -/
  addresses : String → Except String (List Address)

/-- The endpoints at the target of an SRV record. -/
def SrvResolver.follow (s : SrvResolver) (service : String × UInt16) :
    Except DiscoveryError (List Endpoint) :=
  let (target, port) := service
  match s.addresses target with
  | .error e => .error (.directory ("failed to resolve SRV target " ++ target ++ ": " ++ e))
  | .ok addresses => .ok (addresses.map (⟨·, port⟩))

/-- The endpoints that the SRV records of a service lead to, target by target. -/
def SrvResolver.lookup (s : SrvResolver) (name : String) : Except DiscoveryError (List Endpoint) :=
  match s.services name with
  | .error e => .error (.directory ("SRV lookup of " ++ name ++ " failed: " ++ e))
  | .ok services => (services.mapM s.follow).map List.flatten

/-- A directory of service names. -/
structure Dns where
  /-- The port of peers whose record names none. -/
  port : UInt16
  /-- Who is asked for SRV records first, if anybody. -/
  srv : Option SrvResolver
  /-- The addresses of a host as the system finds them. An error is its text. -/
  hosts : String → Except String (List Address)
  /-- How long it takes until there is an answer about a service. -/
  latency : String → Duration

namespace Dns

/-- A host whose name is an IP literal has that address and no other. -/
def ReadsLiterals (d : Dns) : Prop :=
  ∀ name address, Address.read? name = some address → d.hosts name = .ok [address]

/-- The hosts that are known without a network. -/
def literals (name : String) : Except String (List Address) :=
  match Address.read? name with
  | some address => .ok [address]
  | none => .error "no network"

/-- A directory that asks for addresses only; by default without a network. -/
def aRecords (port : UInt16) (hosts : String → Except String (List Address) := literals)
    (latency : String → Duration := fun _ => .zero) : Dns := ⟨port, none, hosts, latency⟩

theorem aRecords_readsLiterals (port : UInt16) : (aRecords port).ReadsLiterals := by
  intro name address read
  show literals name = _
  rw [literals, read]

/-- SRV records are asked for first. -/
def usesSrv (d : Dns) : Bool := d.srv.isSome

/-- Port 0 is read as the service port. -/
def normalise (d : Dns) (e : Endpoint) : Endpoint :=
  if e.port = 0 then { e with port := d.port } else e

/-- The normalised endpoints in order, each once. -/
def endpoints (d : Dns) (endpoints : List Endpoint) : List Endpoint :=
  endpoints.foldl (fun placed e => (d.normalise e).place placed) []

/-- A record for each endpoint. -/
def records (d : Dns) (endpoints : List Endpoint) : List Record :=
  (d.endpoints endpoints).map fun e => .plain e.address.write e.port

/-- The records of an SRV answer. An empty answer and an error leave the word to the addresses of
the name. -/
def srvRecords? (d : Dns) : Except DiscoveryError (List Endpoint) → Option (List Record)
  | .ok [] => none
  | .ok endpoints => some (d.records endpoints)
  | .error _ => none

/-- Only service names can be resolved. -/
def supports (_ : Dns) : Selector → Bool
  | .service _ => true
  | .pods _ _ => false

/-- A short description. -/
def describe (d : Dns) : String := "dns(port " ++ Decimal.write d.port.toNat ++ ")"

/-- The error for a selector that no directory of this kind resolves. -/
def unsupported (selector : Selector) : DiscoveryError :=
  .config ("dns directory cannot resolve " ++ selector.text)

/-- The peers at the addresses of the service name itself. -/
def lookupHost (d : Dns) (name : String) : Except DiscoveryError (List Record) :=
  match d.hosts name with
  | .error e => .error (.directory ("failed to resolve " ++ name ++ ": " ++ e))
  | .ok addresses => .ok (d.records (addresses.map (⟨·, d.port⟩)))

/-- The peers behind a service name: those that its SRV records lead to, or else those at its own
addresses. -/
def list (d : Dns) : Selector → Except DiscoveryError (List Record)
  | .service name =>
    match d.srv.bind fun srv => d.srvRecords? (srv.lookup name) with
    | some records => .ok records
    | none => d.lookupHost name
  | selector => .error (unsupported selector)

/-- How long it takes to list the peers. -/
def listTime (d : Dns) : Selector → Duration
  | .service name => d.latency name
  | _ => .zero

/-- The directory as shown to a developer. -/
def debugText (d : Dns) : String :=
  "DnsDirectory \x7b port: " ++ Decimal.write d.port.toNat ++ ", srv: " ++
    (if d.usesSrv then "true" else "false") ++ " \x7d"

end Dns

end Roster
