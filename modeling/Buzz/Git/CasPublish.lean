import Buzz.Git.Store

namespace Buzz
set_option autoImplicit true
open Interleave

inductive CasError where
  | conflict (winnerManifest : Manifest) (winnerManifestKey : String)
  | manifestReadFailed (message : String)
  | manifestInvalid (error : ManifestError)
  | backend (error : StoreError)
  | packCapture (message : String)
  | resourceLimit (message : String)

structure PublishLimits where
  parentHydratedBytes : Nat
  maxPackBytes : Nat
  maxRepoBytes : Nat

structure CasSuccess where
  manifest : Manifest
  manifestKey : String

/-- What hydration has seen of the pointer. -/
structure ParentState where
  ifMatch : Option ETag
  parentDigest : Option String
  parent : Manifest

def ParentState.fresh : ParentState :=
  ⟨none, none, ⟨MANIFEST_VERSION, "", ∅, [], none⟩⟩

def ParentState.fromLoaded (etag : ETag) (digest : String) (parent : Manifest) : ParentState :=
  ⟨some etag, some digest, parent⟩

/-- A pack of a compaction on disk: its size and its index's size when they were checked, and
its bytes when they are read for the upload. -/
structure CompactedPack where
  packLen : Nat
  idxLen : Nat
  read : Except CasError ByteArray

/-- The bare repository after `receive-pack`, as the git commands on it answer. The permit and
the timer of a compaction, in uploads that come first, are part of it. -/
structure Workspace where
  forEachRef : Except CasError ByteArray
  symbolicRef : Except CasError String
  packObjects : List String → List String → Except CasError ByteArray
  countObjects : Except CasError (Nat × Nat)
  compactObjects : List String → Except CasError (List CompactedPack)
  compactionPermit : Except CasError Unit
  compactionTimer : Option Nat
  limits : PublishLimits

def MAX_REF_SNAPSHOT_BYTES : Nat := 4 * 1024 * 1024
def MAX_COMPACTION_OBJECTS : Nat := 1000000

/-- `str::lines`: the text between newlines, without a carriage return before them. -/
def linesFrom (line : List Char) : List Char → List (List Char)
  | [] => if line = [] then [] else [line]
  | c :: cs =>
    if c = '\n' then
      (if line.getLast? = some '\r' then line.dropLast else line) :: linesFrom [] cs
    else linesFrom (line ++ [c]) cs

def lines (s : String) : List (List Char) :=
  linesFrom [] s.toList

/-- The parts of a line before and after its first blank. -/
def splitBlank (line : List Char) : Option (String × String) :=
  match line.dropWhile (· != ' ') with
  | [] => none
  | _ :: oid => some (String.ofList (line.takeWhile (· != ' ')), String.ofList oid)

/-- One line of `for-each-ref`. A line without a well-formed oid is skipped. -/
def addRef (refs : RefMap) (line : List Char) : Except CasError RefMap :=
  match splitBlank line with
  | none => .ok refs
  | some (name, oid) =>
    if oid.utf8ByteSize ≠ 40 || !oid.toList.all isAsciiHexdigit then .ok refs
    else if MAX_MANIFEST_REFS ≤ refs.size && !refs.contains name then
      .error (.resourceLimit ("workspace contains more than " ++ toString MAX_MANIFEST_REFS ++
        " refs"))
    else .ok (refs.insert name oid)

def readRefs (stdout : ByteArray) : Except CasError RefMap :=
  if MAX_REF_SNAPSHOT_BYTES < stdout.size then
    .error (.resourceLimit ("ref snapshot is " ++ toString stdout.size ++ " bytes (max " ++
      toString MAX_REF_SNAPSHOT_BYTES ++ ")"))
  else (lines ((String.fromUTF8? stdout).getD "")).foldlM addRef ∅

def snapshotWorkspaceState (w : Workspace) : Except CasError (RefMap × String) := do
  let refs ← readRefs (← w.forEachRef)
  let head ← w.symbolicRef
  return (refs, trim head)

def isBranch (name : String) : Bool :=
  "refs/heads/".toList.isPrefixOf name.toList

def resolvePublishedHead (refs : RefMap) (observedHead parentHead : String) : String :=
  if isBranch observedHead && refs.contains observedHead then observedHead
  else if isBranch parentHead && refs.contains parentHead then parentHead
  else if refs.contains "refs/heads/main" then "refs/heads/main"
  else if refs.contains "refs/heads/master" then "refs/heads/master"
  else
    match refs.keys.find? isBranch with
    | some branch => branch
    | none => if observedHead ≠ "" then observedHead else parentHead

/-- The oids of a ref map, in the order of the names. -/
def values (refs : RefMap) : List String :=
  refs.toList.map Prod.snd

/-- The delta pack of a push: what the new refs reach and the old ones do not. -/
def capturePack (w : Workspace) (refsBefore refsAfter : RefMap) (maxPackBytes : Nat) :
    Except CasError (Option ByteArray) :=
  if values refsAfter = [] then .ok none
  else do
    let pack ← w.packObjects (values refsAfter) (values refsBefore)
    if maxPackBytes < pack.size then
      .error (.resourceLimit ("pack-objects output is " ++ toString pack.size ++ " bytes (max " ++
        toString maxPackBytes ++ ")"))
    else if pack.size = 0 then .ok none
    else .ok (some pack)

def shouldCompact (parentPackCount threshold : Nat) : Bool :=
  threshold ≤ parentPackCount

def compactedPackSetIsUsable (parentPackCount compactedPackCount : Nat) : Bool :=
  compactedPackCount < parentPackCount ||
    (MAX_MANIFEST_PACKS ≤ parentPackCount && compactedPackCount ≤ MAX_MANIFEST_PACKS)

def enforceCompactionObjectLimit (w : Workspace) : Except CasError Unit := do
  let (loose, packed) ← w.countObjects
  if 2 ^ 64 ≤ loose + packed then
    .error (.resourceLimit "compaction object count overflowed u64")
  else if MAX_COMPACTION_OBJECTS < loose + packed then
    .error (.resourceLimit ("repository has " ++ toString (loose + packed) ++
      " objects (compaction max " ++ toString MAX_COMPACTION_OBJECTS ++ ")"))
  else .ok ()

/-- The size checks on the packs of a compaction, with the bytes counted so far. -/
def checkCompactedPacks (limits : PublishLimits) (total : Nat) :
    List CompactedPack → Except CasError Unit
  | [] => .ok ()
  | p :: packs =>
    if limits.maxPackBytes < p.packLen then
      .error (.resourceLimit ("compacted pack is " ++ toString p.packLen ++ " bytes (max " ++
        toString limits.maxPackBytes ++ ")"))
    else if 2 ^ 64 ≤ total + p.packLen then
      .error (.resourceLimit "compacted byte count overflowed u64")
    else if limits.maxRepoBytes < total + p.packLen then
      .error (.resourceLimit ("compacted repo needs " ++ toString (total + p.packLen) ++
        " bytes (max " ++ toString limits.maxRepoBytes ++ ")"))
    else if limits.maxPackBytes < p.idxLen then
      .error (.resourceLimit ("compacted idx is " ++ toString p.idxLen ++ " bytes (max " ++
        toString limits.maxPackBytes ++ ")"))
    else checkCompactedPacks limits (total + p.packLen) packs

/-- The packs of everything that the new refs reach. Equal oids are given to git once. -/
def captureCompactedPacks (w : Workspace) (refsAfter : RefMap) (limits : PublishLimits) :
    Except CasError (List CompactedPack) :=
  if refsAfter.isEmpty then .ok []
  else do
    enforceCompactionObjectLimit w
    let packs ← w.compactObjects (values refsAfter).dedup
    if MAX_MANIFEST_PACKS < packs.length then
      .error (.resourceLimit ("compaction produced " ++ toString packs.length ++ " packs (max " ++
        toString MAX_MANIFEST_PACKS ++ ")"))
    else do
      checkCompactedPacks limits 0 packs
      return packs

def composeAfter (parent : Manifest) (parentDigest : Option String) (head : String) (refs : RefMap)
    (newPackKey : Option String) : Manifest :=
  let packs :=
    match newPackKey with
    | some k => if parent.packs.contains k then parent.packs else parent.packs ++ [k]
    | none => parent.packs
  ⟨MANIFEST_VERSION, head, refs, sortDedup packs, parentDigest⟩

def composeCompactedAfter (parentDigest : Option String) (head : String) (refs : RefMap)
    (compactedPackKeys : List String) : Manifest :=
  ⟨MANIFEST_VERSION, head, refs, sortDedup compactedPackKeys, parentDigest⟩

/-- The operations that a push waits for. -/
inductive GitOp where
  | loadPointer (pkey : String)
  | receivePack (parent : Manifest)
  | putImmutable (pre : String) (bytes : ByteArray)
  | putPointer (pkey : String) (body : ByteArray) (precond : Precond)
  | readWinner (pkey : String)

abbrev GitOp.Res : GitOp → Type
  | .loadPointer _ => Except HydrateError (Option (ETag × String × Manifest))
  | .receivePack _ => Except HydrateError Workspace
  | .putImmutable _ _ => Except StoreError String
  | .putPointer _ _ _ => Except StoreError CasOutcome
  | .readWinner _ => Except CasError (Manifest × String)

abbrev GitProg := Prog GitOp GitOp.Res

def loadPointer (pkey : String) :
    GitProg (Except HydrateError (Option (ETag × String × Manifest))) :=
  Prog.lift (GitOp.loadPointer pkey)

/-- Materialize the parent and run `receive-pack` on it. -/
def receivePack (parent : Manifest) : GitProg (Except HydrateError Workspace) :=
  Prog.lift (GitOp.receivePack parent)

def putPack (bytes : ByteArray) : GitProg (Except StoreError String) :=
  Prog.lift (GitOp.putImmutable "packs" bytes)

def putManifest (bytes : ByteArray) : GitProg (Except StoreError String) :=
  Prog.lift (GitOp.putImmutable "manifests" bytes)

def putPointer (pkey : String) (body : ByteArray) (precond : Precond) :
    GitProg (Except StoreError CasOutcome) :=
  Prog.lift (GitOp.putPointer pkey body precond)

def readWinnerAfterConflict (pkey : String) : GitProg (Except CasError (Manifest × String)) :=
  Prog.lift (GitOp.readWinner pkey)

def nonStandardKey (call key : String) : CasError :=
  .backend (.backend (call ++ " returned non-standard key: " ++ key))

def digestFromPackKey (key : String) : Except CasError String :=
  match stripPrefix "packs/" key with
  | some d =>
    if d.utf8ByteSize = 64 && d.toList.all isAsciiHexdigit then .ok d
    else .error (nonStandardKey "put_pack" key)
  | none => .error (nonStandardKey "put_pack" key)

def digestFromManifestKey (key : String) : Except CasError String :=
  match stripPrefix "manifests/" key with
  | some d => .ok d
  | none => .error (nonStandardKey "put_manifest" key)

def compactionTimedOut : CasError :=
  .packCapture "pack compaction operation timed out after 600 seconds"

/-- Upload the packs one after the other, until the timer fires. -/
def uploadCompactedPacks : List CompactedPack → Option Nat → GitProg (Except CasError (List String))
  | [], _ => return .ok []
  | _ :: _, some 0 => return .error compactionTimedOut
  | p :: packs, timer =>
    match p.read with
    | .error e => return .error e
    | .ok bytes =>
      if bytes.size ≠ p.packLen then
        return .error (.packCapture "compacted pack changed after size validation")
      else do
        match ← putPack bytes with
        | .error e => return .error (.backend e)
        | .ok key =>
          match digestFromPackKey key with
          | .error e => return .error e
          | .ok _ =>
            match ← uploadCompactedPacks packs (timer.map (· - 1)) with
            | .error e => return .error e
            | .ok keys => return .ok (key :: keys)

/-- Capture the compacted packs and upload them; their keys are sorted and told apart. -/
def prepareCompaction (w : Workspace) (refsAfter : RefMap) (packsBefore : Nat) :
    GitProg (Except CasError (List String)) :=
  match captureCompactedPacks w refsAfter w.limits with
  | .error e => return .error e
  | .ok packs =>
    if !compactedPackSetIsUsable packsBefore packs.length then
      return .error (.resourceLimit ("compaction did not reduce pack count (before " ++
        toString packsBefore ++ ", after " ++ toString packs.length ++ ")"))
    else do
      match ← uploadCompactedPacks packs w.compactionTimer with
      | .error e => return .error e
      | .ok keys => return .ok (sortDedup keys)

/-- The compaction of a push, if it is due. -/
def tryCompaction (w : Workspace) (refsAfter : RefMap) (packsBefore threshold : Nat) :
    GitProg (Option (Except CasError (List String))) :=
  if shouldCompact packsBefore threshold then
    match w.compactionPermit with
    | .error e => return some (.error e)
    | .ok () => do
      let prepared ← prepareCompaction w refsAfter packsBefore
      return some prepared
  else return none

/-- The new manifest with a delta pack over the parent's refs. -/
def publishDelta (ps : ParentState) (w : Workspace) (head : String) (refsAfter : RefMap)
    (compactionFailure : Option CasError) : GitProg (Except CasError Manifest) :=
  match capturePack w ps.parent.refs refsAfter w.limits.maxPackBytes with
  | .error e => return .error e
  | .ok none => return .ok (composeAfter ps.parent ps.parentDigest head refsAfter none)
  | .ok (some bytes) =>
    if MAX_MANIFEST_PACKS ≤ ps.parent.packs.length then
      return .error (compactionFailure.getD (.resourceLimit ("repository already names " ++
        toString ps.parent.packs.length ++ " packs and compaction failed")))
    else if 2 ^ 64 ≤ w.limits.parentHydratedBytes + bytes.size then
      return .error (.resourceLimit "repo byte count overflowed u64")
    else if w.limits.maxRepoBytes < w.limits.parentHydratedBytes + bytes.size then
      return .error (.resourceLimit ("repo would need " ++
        toString (w.limits.parentHydratedBytes + bytes.size) ++ " hydrated bytes (max " ++
        toString w.limits.maxRepoBytes ++ ")"))
    else do
      match ← putPack bytes with
      | .error e => return .error (.backend e)
      | .ok key => return .ok (composeAfter ps.parent ps.parentDigest head refsAfter (some key))

/-- The new manifest from the compacted packs, or from a delta pack if there are none. -/
def composeManifest (ps : ParentState) (w : Workspace) (head : String) (refsAfter : RefMap) :
    Option (Except CasError (List String)) → GitProg (Except CasError Manifest)
  | some (.ok keys) => return .ok (composeCompactedAfter ps.parentDigest head refsAfter keys)
  | some (.error e) => publishDelta ps w head refsAfter (some e)
  | none => publishDelta ps w head refsAfter none

def ParentState.precond (ps : ParentState) : Precond :=
  match ps.ifMatch with
  | some etag => .ifMatch etag
  | none => .ifNoneMatchStar

/-- Validate the manifest, store it and move the pointer to it. -/
def publishManifest (pkey : String) (ps : ParentState) (m : Manifest) :
    GitProg (Except CasError CasSuccess) :=
  match m.validate with
  | .error e => return .error (.manifestInvalid e)
  | .ok () => do
    match ← putManifest m.canonicalBytes with
    | .error e => return .error (.backend e)
    | .ok key =>
      match digestFromManifestKey key with
      | .error e => return .error e
      | .ok digest =>
        match ← putPointer pkey digest.toUTF8 ps.precond with
        | .error e => return .error (.backend e)
        | .ok (.won _) => return .ok ⟨m, key⟩
        | .ok .lostRace =>
          match ← readWinnerAfterConflict pkey with
          | .error e => return .error e
          | .ok (winner, winnerKey) => return .error (.conflict winner winnerKey)

/-- The manifest that a push is about to publish, with its packs in the store. -/
def stageManifest (ps : ParentState) (w : Workspace) (threshold : Nat) :
    GitProg (Except CasError Manifest) :=
  match snapshotWorkspaceState w with
  | .error e => return .error e
  | .ok (refsAfter, headObserved) => do
    let head := resolvePublishedHead refsAfter headObserved ps.parent.head
    let compaction ← tryCompaction w refsAfter ps.parent.packs.length threshold
    composeManifest ps w head refsAfter compaction

def casPublishInner (pkey : String) (ps : ParentState) (w : Workspace) (threshold : Nat) :
    GitProg (Except CasError CasSuccess) := do
  match ← stageManifest ps w threshold with
  | .error e => return .error e
  | .ok m => publishManifest pkey ps m

def casPublish (pkey : String) (ps : ParentState) (w : Workspace) :
    GitProg (Except CasError CasSuccess) :=
  casPublishInner pkey ps w PACK_COMPACTION_THRESHOLD

inductive PushError where
  | hydrate (error : HydrateError)
  | cas (error : CasError)

/-- The parent state of `hydrate_for_write`. -/
def hydratedParent : Option (ETag × String × Manifest) → ParentState
  | some (etag, digest, manifest) => .fromLoaded etag digest manifest
  | none => .fresh

/-- A push: hydrate, run `receive-pack` in the workspace and publish against the same parent. -/
def push (pkey : String) : GitProg (Except PushError CasSuccess) := do
  match ← loadPointer pkey with
  | .error e => return .error (.hydrate e)
  | .ok loaded =>
    match ← receivePack (hydratedParent loaded).parent with
    | .error e => return .error (.hydrate e)
    | .ok w =>
      match ← casPublish pkey (hydratedParent loaded) w with
      | .error e => return .error (.cas e)
      | .ok success => return .ok success

end Buzz
