/-
# Domains and their sockets

`daemon/domain.rs`, `daemon/domain_lifecycle.rs`, the requests of
`daemon/rpc_handler.rs` that make, load, delete and read domains, and the loop
of `daemon/server.rs` that builds the declared ones. A task runs from one lock
or await to the next in one step, and tasks interleave in any order; a create
and a load hold `create_lock` from their check to their insert, a delete does
not take it. A domain is dropped when no task and no name refers to it any
more, and a spawn when it fails: their listeners are told to stop, and a socket
stays bound until its listener has, which may be at any time from then on.

The host answers a bind as it likes, but never gives a socket that this daemon
has bound. Where a request fails before it reads the domains it only answers.
The records, the processors and what `DomainInfo` says of them are left out.

Key definitions: `Domain`, `Spawn`, `Task`, `DomainsRun`, `Effect`,
`DomainsRun.step`.
-/
import Logmon.Cases.Load
import Logmon.Daemon.Persistence
import Logmon.Lib.FMap
import Mathlib.Data.Finset.Union

namespace Logmon
namespace Domains

open Lib

/-! ### Domains -/

inductive DomainSource
  | config
  | persistent
  | ephemeral
  deriving DecidableEq

/-- What a domain says of itself: its name, the ports its receivers bound
(`0` where one is disabled), its sizes, and where it came from. -/
structure DomainConfig where
  name : DomainId
  gelfPort : ℕ
  otlpGrpcPort : ℕ
  otlpHttpPort : ℕ
  logBufferSize : ℕ
  spanBufferSize : ℕ
  source : DomainSource
  deriving DecidableEq

inductive Proto
  | udp
  | tcp
  deriving DecidableEq

abbrev Socket := Proto × ℕ

/-- A GELF receiver listens on one port, both ways. -/
def gelfSockets (gelf : Option ℕ) : Finset Socket :=
  match gelf with
  | none => ∅
  | some p => {(.udp, p), (.tcp, p)}

/-- The live receivers of a domain, by the ports they bound. -/
structure DomainReceivers where
  gelf : Option ℕ
  otlp : Option (ℕ × ℕ)
  deriving DecidableEq

def DomainReceivers.sockets (r : DomainReceivers) : Finset Socket :=
  match r.otlp with
  | none => gelfSockets r.gelf
  | some (grpc, http) => insert (.tcp, http) (insert (.tcp, grpc) (gelfSockets r.gelf))

/-- A domain, as the `Arc`s to it see it; `inst` tells one from another of the
same make. The default domain and a loaded case have no receivers of their
own; the case is named. -/
structure Domain where
  inst : ℕ
  config : DomainConfig
  receivers : Option DomainReceivers
  postmortem : Option String
  deriving DecidableEq

def Domain.sockets (d : Domain) : Finset Socket :=
  match d.receivers with
  | none => ∅
  | some r => r.sockets

def DomainId.new (name : String) : Except String DomainId :=
  if isValidName name then .ok ⟨name⟩ else .error ("invalid domain name: " ++ name)

/-! ### Spawning -/

/-- Requested ports: `none` allocates, `0` disables, another binds exactly it. -/
structure DomainPortSpec where
  gelf : Option ℕ
  otlpGrpc : Option ℕ
  otlpHttp : Option ℕ
  deriving DecidableEq

/-- OTLP is off only where both its ports are disabled. -/
def DomainPortSpec.otlpDisabled (spec : DomainPortSpec) : Bool :=
  decide (spec.otlpGrpc = some 0) && decide (spec.otlpHttp = some 0)

/-- Where `spawn_ephemeral_domain` stands. GELF binds UDP and then TCP, on a
port found free when none is named, `tries` times at most; then OTLP binds its
two listeners. -/
inductive Spawn
  | allocating (tries : ℕ)
  | binding (tries p : ℕ)
  | udpBound (tries p : ℕ)
  | otlp (gelf : Option ℕ)
  | grpcBound (gelf : Option ℕ) (grpc : ℕ)
  | bound (r : DomainReceivers)
  | failed (e : String)

/-- What the host is asked: a port that is free, or a socket on a port, any
where the port is `0`. -/
inductive Ask
  | probe
  | bind (proto : Proto) (port : ℕ)

/-- The host may refuse; a port it gives is not `0`, not bound here, and the
one asked for. -/
def Ask.granted (bound : Finset Socket) : Ask → Except String ℕ → Bool
  | _, .error _ => true
  | .probe, .ok p => decide (p ≠ 0) && decide ((.tcp, p) ∉ bound)
  | .bind proto port, .ok p => decide (p ≠ 0) && decide ((proto, p) ∉ bound) && (decide (port = 0) || decide (p = port))

namespace Spawn

/-- `start_gelf` by what was requested. -/
def start (spec : DomainPortSpec) : Spawn :=
  match spec.gelf with
  | some 0 => .otlp none
  | some p => .binding 1 p
  | none => .allocating 5

/-- The sockets it holds; an error drops what it had bound. -/
def sockets : Spawn → Finset Socket
  | .udpBound _ p => {(.udp, p)}
  | .otlp gelf => gelfSockets gelf
  | .grpcBound gelf grpc => insert (.tcp, grpc) (gelfSockets gelf)
  | .bound r => r.sockets
  | _ => ∅

def ask (spec : DomainPortSpec) : Spawn → Option Ask
  | .allocating _ => some .probe
  | .binding _ p => some (.bind .udp p)
  | .udpBound _ p => some (.bind .tcp p)
  | .otlp _ => if spec.otlpDisabled then none else some (.bind .tcp (spec.otlpGrpc.getD 0))
  | .grpcBound _ _ => some (.bind .tcp (spec.otlpHttp.getD 0))
  | _ => none

/-- GELF could not bind: the last error, or another port. -/
def refused (tries : ℕ) (e : String) : Spawn := if 1 < tries then .allocating (tries - 1) else .failed e

def answered : Spawn → Except String ℕ → Spawn
  | .allocating tries, .ok p => .binding tries p
  | .allocating _, .error e => .failed e
  | .binding tries p, .ok _ => .udpBound tries p
  | .binding tries _, .error e => refused tries e
  | .udpBound _ p, .ok _ => .otlp (some p)
  | .udpBound tries _, .error e => refused tries e
  | .otlp gelf, .ok grpc => .grpcBound gelf grpc
  | .otlp _, .error e => .failed e
  | .grpcBound gelf grpc, .ok http => .bound ⟨gelf, some (grpc, http)⟩
  | .grpcBound _ _, .error e => .failed e
  | sp, _ => sp

end Spawn

/-- The domain that was spawned. -/
def spawnedDomain (inst : ℕ) (id : DomainId) (r : DomainReceivers) (logBufferSize spanBufferSize : ℕ)
    (source : DomainSource) : Domain where
  inst
  config := {
    name := id
    gelfPort := r.gelf.getD 0
    otlpGrpcPort := (r.otlp.map Prod.fst).getD 0
    otlpHttpPort := (r.otlp.map Prod.snd).getD 0
    logBufferSize
    spanBufferSize
    source }
  receivers := some r
  postmortem := none

/-- The sealed domain of a case. -/
def caseDomain (inst : ℕ) (id : DomainId) (c : Cases.LoadedCase) : Domain where
  inst
  config := {
    name := id
    gelfPort := 0
    otlpGrpcPort := 0
    otlpHttpPort := 0
    logBufferSize := (c.front.logdata.map Cases.FileRef.records).getD 0
    spanBufferSize := (c.front.spandata.map Cases.FileRef.records).getD 0
    source := .ephemeral }
  receivers := none
  postmortem := some c.stem

/-! ### Requests -/

structure DomainPolicy where
  maxDomains : ℕ
  defaultLogBufferSize : ℕ
  defaultSpanBufferSize : ℕ

structure DomainsCreate where
  name : String
  gelfPort : Option ℕ
  otlpGrpcPort : Option ℕ
  otlpHttpPort : Option ℕ
  logBufferSize : Option ℕ
  spanBufferSize : Option ℕ
  persist : Bool

structure ConfigDomain where
  name : String
  gelfPort : Option ℕ
  otlpGrpcPort : Option ℕ
  otlpHttpPort : Option ℕ
  logBufferSize : Option ℕ
  spanBufferSize : Option ℕ

def ConfigDomain.ports (cd : ConfigDomain) : DomainPortSpec := ⟨cd.gelfPort, cd.otlpGrpcPort, cd.otlpHttpPort⟩

/-- No two named ports may coincide. -/
def portsDiffer (a b : String × Option ℕ) : Except String Unit :=
  match a.2, b.2 with
  | some x, some y =>
    if x ≠ 0 ∧ x = y then .error (a.1 ++ " and " ++ b.1 ++ " must differ (both = " ++ toString x ++ ")") else .ok ()
  | _, _ => .ok ()

/-- What a create is refused for before it waits for the lock. -/
def DomainsCreate.validate (req : DomainsCreate) : Except String (DomainId × DomainPortSpec) :=
  if req.persist then
    .error "persistent domains are not yet supported — create with persist=false (ephemeral)"
  else do
    let id ← DomainId.new req.name
    portsDiffer ("gelf_port", req.gelfPort) ("otlp_grpc_port", req.otlpGrpcPort)
    portsDiffer ("gelf_port", req.gelfPort) ("otlp_http_port", req.otlpHttpPort)
    portsDiffer ("otlp_grpc_port", req.otlpGrpcPort) ("otlp_http_port", req.otlpHttpPort)
    .ok (id, ⟨req.gelfPort, req.otlpGrpcPort, req.otlpHttpPort⟩)

/-- A size a ring can reserve. -/
def sizeFits (what : String) (size : ℕ) : Except String Unit :=
  if maxBufferSize < size then
    .error (what ++ " " ++ toString size ++ " exceeds the maximum " ++ toString maxBufferSize)
  else .ok ()

def portMatches (existing : ℕ) (requested : Option ℕ) : Bool := requested.all fun p => p = existing

inductive Reply
  | created (d : Domain)
  | ensured (d : Domain)
  | loaded (d : Domain)
  | deleted (name : DomainId)
  | read (d : Domain)
  | booted
  | error (message : String)

/-- An existing domain answers a create that asks for what it is. -/
def ensureIdempotent (existing : Domain) (requested : DomainPortSpec) : Reply :=
  match existing.postmortem with
  | some stem =>
    .error ("domain `" ++ existing.config.name.name ++ "` holds the loaded case `" ++ stem ++
      "` rather than a running system, so it cannot be ensured as a live domain. Delete it first, or pick another name.")
  | none =>
    if portMatches existing.config.gelfPort requested.gelf && portMatches existing.config.otlpGrpcPort requested.otlpGrpc &&
        portMatches existing.config.otlpHttpPort requested.otlpHttp then .ensured existing
    else .error ("domain \"" ++ existing.config.name.name ++ "\" already exists with different ports")

/-- A name that is taken refuses a load. -/
def occupied (id : DomainId) (existing : Domain) : Reply :=
  let holds := match existing.postmortem with
    | some stem => "holds the case `" ++ stem ++ "`"
    | none => "is a live domain"
  .error ("domain `" ++ id.name ++ "` already exists and " ++ holds ++ ". A postmortem domain is constituted by ONE case" ++
    " — its frozen clock, incarnation, registry and seq range all belong to that capture — so loading a second into it" ++
    " has no coherent meaning. Pass `domain` to name a new one, or delete this first.")

/-- What a connection asks for. A read resolves the domain of its session;
`orDefault` is the subscription to its events. -/
inductive Request
  | create (req : DomainsCreate)
  | load (case : Except String Cases.LoadedCase) (domain : Option String)
  | delete (name : String)
  | read (id : DomainId) (orDefault : Bool)

/-- What a task is at, once its request is accepted. -/
inductive Job
  | boot
  | create (id : DomainId) (spec : DomainPortSpec) (logBufferSize spanBufferSize : Option ℕ)
  | load (id : DomainId) (case : Cases.LoadedCase)
  | delete (id : DomainId)
  | read (id : DomainId) (orDefault : Bool)
  | refused

/-- Where it stands. Creates and loads wait for the lock, check the name and
count the domains; a create then spawns. The boot loop goes through the
declared domains. `panicked` is the failed `expect` of a subscription. -/
inductive Stage
  | waiting
  | checking
  | found (d : Domain)
  | absent
  | counted (ds : List Domain)
  | spawning (sp : Spawn)
  | building
  | looking
  | fallback
  | holding (d : Domain)
  | removing
  | boot (todo : List ConfigDomain) (seen : List DomainId)
  | starting (cd : ConfigDomain) (id : DomainId) (todo : List ConfigDomain) (seen : List DomainId) (sp : Spawn)
  | done (r : Reply)
  | panicked

structure Task where
  job : Job
  stage : Stage

/-- A request before it touches the domains. -/
def Request.accept : Request → Task
  | .create req =>
    match req.validate with
    | .error e => ⟨.refused, .done (.error e)⟩
    | .ok (id, spec) => ⟨.create id spec req.logBufferSize req.spanBufferSize, .waiting⟩
  | .load case domain =>
    match case with
    | .error e => ⟨.refused, .done (.error e)⟩
    | .ok c =>
      match DomainId.new (domain.getD c.stem) with
      | .error e => ⟨.refused, .done (.error e)⟩
      | .ok id => ⟨.load id c, .waiting⟩
  | .delete name =>
    match DomainId.new name with
    | .error e => ⟨.refused, .done (.error e)⟩
    | .ok id => ⟨.delete id, .looking⟩
  | .read id orDefault => ⟨.read id orDefault, .looking⟩

/-- The `Arc`s a task holds. -/
def Stage.arcs : Stage → List Domain
  | .found d => [d]
  | .counted ds => ds
  | .holding d => [d]
  | _ => []

/-- The sockets it has bound for a domain still to come. -/
def Stage.sockets : Stage → Finset Socket
  | .spawning sp => sp.sockets
  | .starting _ _ _ _ sp => sp.sockets
  | _ => ∅

/-! ### Steps -/

/-- The registry, the lock, the tasks, the sockets bound on the host, those of
listeners that are told to stop among them, and how many domains were made. -/
structure DomainsRun where
  registry : FMap DomainId Domain
  lock : Option ℕ
  tasks : List Task
  bound : Finset Socket
  closing : Finset Socket
  made : ℕ

/-- What a step does besides moving its task on. -/
inductive Effect
  | quiet
  | acquire
  | release
  /-- Insert the domain, and release the lock if it is held. -/
  | publish (d : Domain)
  | remove (id : DomainId)

/-- The sockets that go over to a domain. -/
def Effect.sockets : Effect → Finset Socket
  | .publish d => d.sockets
  | _ => ∅

namespace DomainsRun

/-- `list`, in some order. -/
def list (s : DomainsRun) : List Domain := s.registry.entries.map Prod.snd

/-- The domains something refers to. -/
def alive (s : DomainsRun) : List Domain := s.list ++ s.tasks.flatMap fun t => t.stage.arcs

end DomainsRun

/-- The API-created among the domains. -/
def apiCreated (ds : List Domain) : ℕ := ds.countP fun d => decide (d.config.source ≠ .config)

variable (policy : DomainPolicy) (s : DomainsRun)

/-- A spawn that asks for nothing: OTLP is disabled. -/
def Spawn.skip (spec : DomainPortSpec) : Spawn → Option Spawn
  | .otlp gelf => if spec.otlpDisabled then some (.bound ⟨gelf, none⟩) else none
  | _ => none

def handleDomainsCreate (id : DomainId) (spec : DomainPortSpec) (logBufferSize spanBufferSize : Option ℕ) :
    Stage → Option (Stage × Effect)
  | .waiting => if s.lock = none then some (.checking, .acquire) else none
  | .checking =>
    match s.registry.get? id with
    | some d => some (.found d, .quiet)
    | none => some (.absent, .quiet)
  | .found d => some (.done (ensureIdempotent d spec), .release)
  | .absent => some (.counted s.list, .quiet)
  | .counted ds =>
    if policy.maxDomains ≤ apiCreated ds then
      some (.done (.error ("max_domains (" ++ toString policy.maxDomains ++
        ") reached — delete a domain before creating another")), .release)
    else
      match sizeFits "log_buffer_size" (logBufferSize.getD policy.defaultLogBufferSize),
        sizeFits "span_buffer_size" (spanBufferSize.getD policy.defaultSpanBufferSize) with
      | .error e, _ => some (.done (.error e), .release)
      | .ok (), .error e => some (.done (.error e), .release)
      | .ok (), .ok () => some (.spawning (.start spec), .quiet)
  | .spawning (.bound r) =>
    let d := spawnedDomain s.made id r (logBufferSize.getD policy.defaultLogBufferSize)
      (spanBufferSize.getD policy.defaultSpanBufferSize) .ephemeral
    some (.done (.created d), .publish d)
  | .spawning (.failed e) => some (.done (.error ("could not create domain: " ++ e)), .release)
  | .spawning sp => (sp.skip spec).map fun sp' => (.spawning sp', .quiet)
  | _ => none

def handleCasesLoad (id : DomainId) (c : Cases.LoadedCase) : Stage → Option (Stage × Effect)
  | .waiting => if s.lock = none then some (.checking, .acquire) else none
  | .checking =>
    match s.registry.get? id with
    | some d => some (.found d, .quiet)
    | none => some (.absent, .quiet)
  | .found d => some (.done (occupied id d), .release)
  | .absent => some (.counted s.list, .quiet)
  | .counted ds =>
    if policy.maxDomains ≤ apiCreated ds then
      some (.done (.error ("max_domains (" ++ toString policy.maxDomains ++
        ") reached — delete a domain before loading another")), .release)
    else some (.building, .quiet)
  | .building => some (.done (.loaded (caseDomain s.made id c)), .publish (caseDomain s.made id c))
  | _ => none

/-- It looks the domain up, and then removes whatever has the name. -/
def handleDomainsDelete (id : DomainId) : Stage → Option (Stage × Effect)
  | .looking =>
    match s.registry.get? id with
    | none => some (.done (.error ("domain \"" ++ id.name ++ "\" does not exist")), .quiet)
    | some d => some (.holding d, .quiet)
  | .holding d =>
    if d.config.source = .config then
      some (.done (.error ("cannot delete config-declared domain \"" ++ id.name ++ "\" — edit config.json")), .quiet)
    else some (.removing, .quiet)
  | .removing => some (.done (.deleted id), .remove id)
  | _ => none

def resolveDomain (id : DomainId) (orDefault : Bool) : Stage → Option (Stage × Effect)
  | .looking =>
    match s.registry.get? id with
    | some d => some (.holding d, .quiet)
    | none =>
      if orDefault then some (.fallback, .quiet)
      else some (.done (.error ("domain \"" ++ id.name ++ "\" no longer exists — use_domain to rebind")), .quiet)
  | .fallback =>
    match s.registry.get? .default with
    | some d => some (.holding d, .quiet)
    | none => some (.panicked, .quiet)
  | .holding d => some (.done (.read d), .quiet)
  | _ => none

/-- The boot loop: an entry that is invalid, reserved, too large or of a name
already started is skipped, and so is one that cannot bind. -/
def bootDomains : Stage → Option (Stage × Effect)
  | .boot [] _ => some (.done .booted, .quiet)
  | .boot (cd :: todo) seen =>
    match DomainId.new cd.name with
    | .error _ => some (.boot todo seen, .quiet)
    | .ok id =>
      if id = .default then some (.boot todo seen, .quiet)
      else if maxBufferSize < cd.logBufferSize.getD policy.defaultLogBufferSize ∨
          maxBufferSize < cd.spanBufferSize.getD policy.defaultSpanBufferSize then some (.boot todo seen, .quiet)
      else if id ∈ seen then some (.boot todo seen, .quiet)
      else some (.starting cd id todo seen (.start cd.ports), .quiet)
  | .starting cd id todo seen (.bound r) =>
    some (.boot todo (id :: seen), .publish (spawnedDomain s.made id r (cd.logBufferSize.getD policy.defaultLogBufferSize)
      (cd.spanBufferSize.getD policy.defaultSpanBufferSize) .config))
  | .starting _ _ todo seen (.failed _) => some (.boot todo seen, .quiet)
  | .starting cd id todo seen sp => (sp.skip cd.ports).map fun sp' => (.starting cd id todo seen sp', .quiet)
  | _ => none

/-- A task's own step. -/
def Task.advance (t : Task) : Option (Stage × Effect) :=
  match t.job with
  | .boot => bootDomains policy s t.stage
  | .create id spec logBufferSize spanBufferSize =>
    handleDomainsCreate policy s id spec logBufferSize spanBufferSize t.stage
  | .load id c => handleCasesLoad policy s id c t.stage
  | .delete id => handleDomainsDelete s id t.stage
  | .read id orDefault => resolveDomain s id orDefault t.stage
  | .refused => none

/-- The host answers what a spawn asks. -/
def Task.answered (t : Task) (ans : Except String ℕ) : Option Stage :=
  match t.job, t.stage with
  | .create _ spec _ _, .spawning sp =>
    match sp.ask spec with
    | none => none
    | some ask => if ask.granted s.bound ans then some (.spawning (sp.answered ans)) else none
  | .boot, .starting cd id todo seen sp =>
    match sp.ask cd.ports with
    | none => none
    | some ask => if ask.granted s.bound ans then some (.starting cd id todo seen (sp.answered ans)) else none
  | _, _ => none

/-- What happens: a request comes, a task runs on, the host answers it, a
listener that was told to stop does. -/
inductive DomainAct
  | request (r : Request)
  | run (i : ℕ)
  | host (i : ℕ) (ans : Except String ℕ)
  | stopped (x : Socket)

namespace DomainsRun

/-- What was alive before and is not any more is dropped, and its listeners are
told to stop. -/
def collect (before s : DomainsRun) : DomainsRun :=
  { s with closing := s.closing ∪ s.bound.filter fun x => ∃ d ∈ before.alive, d ∉ s.alive ∧ x ∈ d.sockets }

/-- Task `i`, at `old`, moves on to `new`; the sockets that it drops are closing. -/
def perform (i : ℕ) (t : Task) (new : Stage) (effect : Effect) : DomainsRun :=
  let bound := s.bound ∪ (new.sockets ∪ effect.sockets)
  let closing := s.closing ∪ (t.stage.sockets \ (new.sockets ∪ effect.sockets))
  let tasks := s.tasks.set i ⟨t.job, new⟩
  let released := if s.lock = some i then none else s.lock
  s.collect <| match effect with
    | .quiet => { s with tasks, bound, closing }
    | .acquire => { s with tasks, bound, closing, lock := some i }
    | .release => { s with tasks, bound, closing, lock := released }
    | .publish d =>
      { registry := s.registry.insert d.config.name d
        lock := released
        tasks
        bound
        closing
        made := s.made + 1 }
    | .remove id => { s with tasks, bound, closing, registry := s.registry.erase id }

/-- A listener that was told to stop has, and its socket is free. -/
def freed (x : Socket) : DomainsRun := { s with bound := s.bound.erase x, closing := s.closing.erase x }

/-- The boot loop is done. -/
def booted : Bool := s.tasks.all fun t =>
  match t.stage with
  | .boot _ _ => false
  | .starting .. => false
  | _ => true

/-- One step. Connections are accepted once the boot loop is done. -/
def step : DomainAct → Option DomainsRun
  | .request r => if s.booted then some { s with tasks := s.tasks ++ [r.accept] } else none
  | .run i =>
    match s.tasks[i]? with
    | none => none
    | some t => (t.advance policy s).map fun x => s.perform i t x.1 x.2
  | .host i ans =>
    match s.tasks[i]? with
    | none => none
    | some t => (t.answered s ans).map fun new => s.perform i t new .quiet
  | .stopped x => if x ∈ s.closing then some (s.freed x) else none

/-- The default domain: the daemon's own receivers feed it. -/
def defaultDomain (gelfPort otlpGrpcPort otlpHttpPort : ℕ) : Domain where
  inst := 0
  config := {
    name := .default
    gelfPort
    otlpGrpcPort
    otlpHttpPort
    logBufferSize := policy.defaultLogBufferSize
    spanBufferSize := policy.defaultSpanBufferSize
    source := .config }
  receivers := none
  postmortem := none

/-- The daemon as its boot loop begins: the default domain, the sockets of the
daemon's own receivers, and the declared domains to come. -/
def init (gelfPort otlpGrpcPort otlpHttpPort : ℕ) (own : Finset Socket) (declared : List ConfigDomain) : DomainsRun where
  registry := (∅ : FMap DomainId Domain).insert .default (defaultDomain policy gelfPort otlpGrpcPort otlpHttpPort)
  lock := none
  tasks := [⟨.boot, .boot declared []⟩]
  bound := own
  closing := ∅
  made := 1

end DomainsRun
end Domains
end Logmon
