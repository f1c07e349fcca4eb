import Buzz.Core.Nostr
import Buzz.Lib.Fallible
import Buzz.Lib.Redis

namespace Buzz.Tunnel
set_option autoImplicit true

abbrev RuntimeId := HexId 64

/-- The tunnel profile of a session. -/
inductive Profile where
  | reliableStream
  | realtimeMedia
  | huddleControl
deriving DecidableEq

namespace Profile

def asWireStr : Profile → List Char
  | reliableStream => "reliable-stream".toList
  | realtimeMedia => "realtime-media".toList
  | huddleControl => "huddle-control".toList

def fromWire (value : List Char) : Option Profile :=
  if value = "reliable-stream".toList then some reliableStream
  else if value = "realtime-media".toList then some realtimeMedia
  else if value = "huddle-control".toList then some huddleControl
  else none

end Profile

structure SessionLease where
  communityId : CommunityId
  sessionId : Uuid
  ownerRuntimeId : RuntimeId
  generation : Nat
  profile : Profile
deriving DecidableEq

/-- The fence that every frame of a session carries. -/
structure FencedHeader where
  sessionId : Uuid
  generation : Nat
  ownerRuntimeId : RuntimeId
deriving DecidableEq

def SessionLease.fencedHeader (lease : SessionLease) : FencedHeader :=
  ⟨lease.sessionId, lease.generation, lease.ownerRuntimeId⟩

inductive AcquireResult where
  | acquired (lease : SessionLease)
  | existing (lease : SessionLease)
deriving DecidableEq

inductive RenewResult where
  | renewed (lease : SessionLease)
  | lost (current : Option SessionLease) (knownGeneration : Option Nat)
deriving DecidableEq

inductive ReleaseResult where
  | released (lease : SessionLease)
  | notOwner (current : Option SessionLease) (knownGeneration : Option Nat)
deriving DecidableEq

inductive DirectoryError where
  | pool (text : String)
  | redis (error : RedisError)
  | malformedLease (communityId : CommunityId) (sessionId : Uuid) (value : List Char)
  | malformedGeneration (communityId : CommunityId) (sessionId : Uuid) (value : List Char)
  | unexpectedScriptStatus (status : String)
  | invalidLeaseTtl
  | communityWriteFenced (text : String)
  -- the `expect` of a renewed or released lease
  | panicked
deriving DecidableEq

/-- What a script returns: a status, the lease and the generation. -/
structure ScriptReply where
  status : String
  value : List Char
  knownGeneration : List Char
deriving DecidableEq

abbrev Script := Redis → Except RedisError ScriptReply × Redis

def leaseValue (owner generation profile : List Char) : List Char :=
  ['|'].intercalate [owner, generation, profile]

/-- The captures of `^([^|]+)|([^|]+)|([^|]+)$`. -/
def matchLease (value : List Char) : Option (List Char × List Char × List Char) :=
  match value.splitOn '|' with
  | [owner, generation, profile] =>
    if owner = [] ∨ generation = [] ∨ profile = [] then none
    else some (owner, generation, profile)
  | _ => none

structure SessionKeys where
  lease : List Char
  generation : List Char

def SessionKeys.new (communityId : CommunityId) (sessionId : Uuid) : SessionKeys :=
  let base := "buzz:".toList ++ communityId.uuid.toString.toList ++ ":tunnel:".toList ++
    sessionId.toString.toList
  ⟨base ++ ":lease".toList, base ++ ":generation".toList⟩

section Scripts

variable (now : Nat) (keys : SessionKeys)

def acquireScript (owner profile : List Char) (ttlMs : Nat) : Script := fun r =>
  match r.get now keys.lease with
  | some current => (.ok ⟨"exists", current, (r.get now keys.generation).getD []⟩, r)
  | none =>
    match r.incr now keys.generation with
    | .error e => (.error e, r)
    | .ok (generation, r) =>
      let value := leaseValue owner (Redis.tostring generation) profile
      (.ok ⟨"acquired", value, Redis.tostring generation⟩, r.setPx now keys.lease value ttlMs)

/-- The two scripts that act on a lease only for its owner and generation. -/
def ownerScript (status : String) (act : Redis → Redis) (owner generation : List Char) : Script :=
  fun r =>
  match r.get now keys.lease with
  | none => (.ok ⟨"missing", [], (r.get now keys.generation).getD []⟩, r)
  | some current =>
    let captures := matchLease current
    let currentGeneration := (captures.map fun x => x.2.1).getD []
    if captures.map (fun x => (x.1, x.2.1)) = some (owner, generation) then
      (.ok ⟨status, current, ((act r).get now keys.generation).getD currentGeneration⟩, act r)
    else
      (.ok ⟨"lost", current, (r.get now keys.generation).getD currentGeneration⟩, r)

def renewScript (owner generation : List Char) (ttlMs : Nat) : Script :=
  ownerScript now keys "renewed" (Redis.pexpire now keys.lease ttlMs) owner generation

def releaseScript (owner generation : List Char) : Script :=
  ownerScript now keys "released" (Redis.del keys.lease) owner generation

def validateScript (r : Redis) : List Char × List Char :=
  ((r.get now keys.lease).getD [], (r.get now keys.generation).getD [])

end Scripts

section Parsing

variable (communityId : CommunityId) (sessionId : Uuid)

def parseLease (value : List Char) : Except DirectoryError SessionLease :=
  let malformed : Except DirectoryError SessionLease :=
    .error (.malformedLease communityId sessionId value)
  match value.splitOn '|' with
  | [owner, generation, profile] =>
    match Decimal.parse (2 ^ 64) generation with
    | none => malformed
    | some generation =>
      if generation = 0 then malformed
      else
        match Profile.fromWire profile with
        | none => malformed
        | some profile =>
          match HexId.ofChars 64 owner with
          | none => malformed
          | some owner => .ok ⟨communityId, sessionId, owner, generation, profile⟩
  | _ => malformed

def parseOptionalLease (value : List Char) : Except DirectoryError (Option SessionLease) :=
  if value = [] then .ok none else (parseLease communityId sessionId value).map some

def parseOptionalGeneration (value : List Char) : Except DirectoryError (Option Nat) :=
  if value = [] then .ok none
  else
    match Decimal.parse (2 ^ 64) value with
    | none => .error (.malformedGeneration communityId sessionId value)
    | some generation =>
      if generation = 0 then .error (.malformedGeneration communityId sessionId value)
      else .ok (some generation)

end Parsing

def ttlMs (leaseTtl : Nat) : Except DirectoryError Nat :=
  if 0 < leaseTtl ∧ leaseTtl < 2 ^ 63 then .ok leaseTtl else .error .invalidLeaseTtl

/-- Whether a script ran, and whether its reply came back. -/
inductive Delivery where
  | runs
  | fails (error : DirectoryError)
  | lost (error : DirectoryError)

/-- What surrounds a call: the clock, the lease time of the directory in milliseconds, the fence
of a deleted community, the pool and the connection. -/
structure Env where
  now : Nat
  leaseTtl : Nat
  beginServingWrite : Except DirectoryError Unit
  checkout : Except DirectoryError Unit
  delivery : Delivery
  finish : Except DirectoryError Unit

namespace SessionDirectory

abbrev Handler := Fallible Redis DirectoryError

def invoke (env : Env) (script : Script) : Handler ScriptReply := fun r =>
  match env.delivery with
  | .runs => ((script r).1.mapError .redis, (script r).2)
  | .fails e => (.error e, r)
  | .lost e => (.error e, (script r).2)

variable (env : Env)

def acquire (communityId : CommunityId) (sessionId : Uuid) (ownerRuntimeId : RuntimeId)
    (profile : Profile) : Handler AcquireResult := do
  .check fun _ => env.beginServingWrite
  let ttl ← .check fun _ => ttlMs env.leaseTtl
  .check fun _ => env.checkout
  let reply ← invoke env (acquireScript env.now (.new communityId sessionId)
    ownerRuntimeId.toChars profile.asWireStr ttl)
  let lease ← .check fun _ => parseLease communityId sessionId reply.value
  .check fun _ => env.finish
  if reply.status = "acquired" then pure (.acquired lease)
  else if reply.status = "exists" then pure (.existing lease)
  else .fail (.unexpectedScriptStatus reply.status)

def renew (lease : SessionLease) : Handler RenewResult := do
  .check fun _ => env.beginServingWrite
  let ttl ← .check fun _ => ttlMs env.leaseTtl
  .check fun _ => env.checkout
  let reply ← invoke env (renewScript env.now (.new lease.communityId lease.sessionId)
    lease.ownerRuntimeId.toChars (Decimal.write lease.generation) ttl)
  let current ← .check fun _ => parseOptionalLease lease.communityId lease.sessionId reply.value
  .check fun _ => env.finish
  if reply.status = "renewed" then
    match current with
    | some current => pure (.renewed current)
    | none => .fail .panicked
  else if reply.status = "missing" ∨ reply.status = "lost" then do
    let known ← .check fun _ =>
      parseOptionalGeneration lease.communityId lease.sessionId reply.knownGeneration
    pure (.lost current known)
  else .fail (.unexpectedScriptStatus reply.status)

def release (lease : SessionLease) : Handler ReleaseResult := do
  .check fun _ => env.beginServingWrite
  .check fun _ => env.checkout
  let reply ← invoke env (releaseScript env.now (.new lease.communityId lease.sessionId)
    lease.ownerRuntimeId.toChars (Decimal.write lease.generation))
  let current ← .check fun _ => parseOptionalLease lease.communityId lease.sessionId reply.value
  .check fun _ => env.finish
  if reply.status = "released" then
    match current with
    | some current => pure (.released current)
    | none => .fail .panicked
  else if reply.status = "missing" ∨ reply.status = "lost" then do
    let known ← .check fun _ =>
      parseOptionalGeneration lease.communityId lease.sessionId reply.knownGeneration
    pure (.notOwner current known)
  else .fail (.unexpectedScriptStatus reply.status)

def lookup (communityId : CommunityId) (sessionId : Uuid) (r : Redis) :
    Except DirectoryError (Option SessionLease) := do
  env.checkout
  match r.get env.now (SessionKeys.new communityId sessionId).lease with
  | none => pure none
  | some value => (parseLease communityId sessionId value).map some

end SessionDirectory

inductive MeshError where
  | staleGeneration (sessionId : Uuid) (frameGeneration knownGeneration : Nat)
  | noActiveLease (sessionId : Uuid) (frameGeneration knownGeneration : Nat)
      (frameOwnerRuntimeId : RuntimeId)
  | ownerMismatch (sessionId : Uuid) (generation : Nat)
      (frameOwnerRuntimeId currentOwnerRuntimeId : RuntimeId)
  | futureGeneration (sessionId : Uuid) (frameGeneration knownGeneration : Nat)
  | transport (error : DirectoryError)
  | redis (error : RedisError)
deriving DecidableEq

def MeshError.ofDirectory : DirectoryError → MeshError
  | .redis e => .redis e
  | e => .transport e

namespace SessionDirectory

/-- The decision on a frame, once the lease and the counter are read. -/
def checkFence (fenced : FencedHeader) (knownFromCounter : Nat) (current : Option SessionLease) :
    Except MeshError Unit :=
  let known := max ((current.map SessionLease.generation).getD knownFromCounter) knownFromCounter
  if 0 < known ∧ fenced.generation < known then
    .error (.staleGeneration fenced.sessionId fenced.generation known)
  else
    match current with
    | none =>
      .error (.noActiveLease fenced.sessionId fenced.generation known fenced.ownerRuntimeId)
    | some current =>
      if fenced.generation ≠ current.generation then
        .error (.futureGeneration fenced.sessionId fenced.generation current.generation)
      else if fenced.ownerRuntimeId ≠ current.ownerRuntimeId then
        .error (.ownerMismatch fenced.sessionId fenced.generation fenced.ownerRuntimeId
          current.ownerRuntimeId)
      else .ok ()

def invokeValidate (env : Env) (keys : SessionKeys) (r : Redis) :
    Except MeshError (List Char × List Char) :=
  match env.delivery with
  | .runs => .ok (validateScript env.now keys r)
  | .fails e => .error (.ofDirectory e)
  | .lost e => .error (.ofDirectory e)

def validateFencedHeader (env : Env) (communityId : CommunityId) (fenced : FencedHeader)
    (r : Redis) : Except MeshError Unit := do
  env.checkout.mapError .transport
  let (leaseValue, knownGeneration) ← invokeValidate env (.new communityId fenced.sessionId) r
  let knownFromCounter ←
    (parseOptionalGeneration communityId fenced.sessionId knownGeneration).mapError .transport
  let current ← (parseOptionalLease communityId fenced.sessionId leaseValue).mapError .transport
  checkFence fenced (knownFromCounter.getD 0) current

end SessionDirectory

end Buzz.Tunnel
