import Buzz.Git.Manifest
import Buzz.Lib.Interleave
import Buzz.Lib.Uuid

namespace Buzz
set_option autoImplicit true
open Interleave

structure ETag where
  value : String
deriving DecidableEq

inductive Precond where
  | ifNoneMatchStar
  | ifMatch (etag : ETag)
deriving DecidableEq

inductive CasOutcome where
  | won (etag : ETag)
  | lostRace
deriving DecidableEq

inductive StoreError where
  | notFound (key : String)
  | objectTooLarge (key : String) (size max : Nat)
  | digestMismatch (key expected actual : String)
  | backend (message : String)
deriving DecidableEq

inductive HydrateError where
  | invalidPointer
  | manifest (error : ManifestError)
  | store (error : StoreError)
  | hydrate (message : String)
  | resourceLimit (message : String)
deriving DecidableEq

def MAX_MANIFEST_BYTES : Nat := 4 * 1024 * 1024

/-- A push, by the order in which it came in. -/
abbrev PushId := Nat

/-- The objects and the pointers of the bucket. `versions` counts the pointer writes, and
`installed` keeps for each pointer the bodies it ever had with the pushes that wrote them. -/
structure GitStore where
  objects : String → Option ByteArray
  pointers : String → Option (ETag × ByteArray)
  versions : Nat
  installed : String → List (PushId × ByteArray)

def GitStore.empty : GitStore :=
  ⟨fun _ => none, fun _ => none, 0, fun _ => []⟩

/-- What the relay relies on outside of its own code: SHA-256, which tells the objects that the
bucket is given apart, and the ETags of the bucket, where two versions of a pointer with the same
ETag have the same body. The ETag may or may not depend on more than the body. -/
structure Backend where
  sha256 : ByteArray → HexId 64
  stored : Set ByteArray
  collisionFree : Set.InjOn sha256 stored
  etag : Nat → ByteArray → ETag
  etagBody : ∀ v w (d e : HexId 64), etag v d.toHex.toUTF8 = etag w e.toHex.toUTF8 → d = e

/-- `repos/<community>/<owner>/<repo>/pointer`, with a trailing `.git` taken off. -/
def pointerKey (community : Uuid) (owner repo : String) : String :=
  let repo :=
    if ".git".toList.isSuffixOf repo.toList then
      String.ofList (repo.toList.take (repo.toList.length - 4))
    else repo
  "repos/" ++ Uuid.toString community ++ "/" ++ owner ++ "/" ++ repo ++ "/pointer"

/-- The `White_Space` characters. -/
def isWhitespace (c : Char) : Bool :=
  (9 ≤ c.toNat && c.toNat ≤ 13) || c.toNat == 0x20 || c.toNat == 0x85 || c.toNat == 0xA0 ||
    c.toNat == 0x1680 || (0x2000 ≤ c.toNat && c.toNat ≤ 0x200A) || c.toNat == 0x2028 ||
    c.toNat == 0x2029 || c.toNat == 0x202F || c.toNat == 0x205F || c.toNat == 0x3000

def trim (s : String) : String :=
  String.ofList ((s.toList.dropWhile isWhitespace).rdropWhile isWhitespace)

namespace GitStore

/-- A create-only write: a key that is taken keeps its bytes. -/
def putImmutable (s : GitStore) (key : String) (bytes : ByteArray) : GitStore :=
  if (s.objects key).isSome then s
  else { s with objects := Function.update s.objects key (some bytes) }

/-- Whether a conditional write of a pointer goes through. -/
def admits (s : GitStore) (pkey : String) : Precond → Bool
  | .ifNoneMatchStar => (s.pointers pkey).isNone
  | .ifMatch etag => (s.pointers pkey).any fun p => p.1 == etag

end GitStore

namespace Backend

variable (B : Backend)

def contentKey (pre : String) (bytes : ByteArray) : String :=
  pre ++ "/" ++ (B.sha256 bytes).toHex

/-- `get_verified`. -/
def getVerified (s : GitStore) (key expected : String) : Except StoreError ByteArray :=
  match s.objects key with
  | none => .error (.notFound key)
  | some bytes =>
    let actual := (B.sha256 bytes).toHex
    if actual ≠ expected then .error (.digestMismatch key expected actual) else .ok bytes

/-- `get_verified_limited`, with a size over the limit made a resource error. -/
def getVerifiedLimited (s : GitStore) (key expected : String) (max : Nat) :
    Except HydrateError ByteArray :=
  match s.objects key with
  | none => .error (.store (.notFound key))
  | some bytes =>
    if max < bytes.size then
      .error (.resourceLimit ("object " ++ key ++ " is " ++ toString bytes.size ++ " bytes (max " ++
        toString max ++ ")"))
    else
      let actual := (B.sha256 bytes).toHex
      if actual ≠ expected then .error (.store (.digestMismatch key expected actual))
      else .ok bytes

/-- The digest in a pointer's body, if it is one. -/
def pointerDigest (body : ByteArray) : Option String :=
  match String.fromUTF8? body with
  | none => none
  | some s =>
    let digest := trim s
    if digest.utf8ByteSize ≠ 64 || !digest.toList.all isAsciiHexdigit then none else some digest

def loadPointer (s : GitStore) (pkey : String) :
    Except HydrateError (Option (ETag × String × Manifest)) :=
  match s.pointers pkey with
  | none => .ok none
  | some (etag, body) =>
    match pointerDigest body with
    | none => .error .invalidPointer
    | some digest =>
      match B.getVerifiedLimited s ("manifests/" ++ digest) digest MAX_MANIFEST_BYTES with
      | .error e => .error e
      | .ok bytes =>
        match Manifest.fromBytes bytes with
        | .error e => .error (.manifest e)
        | .ok m =>
          match m.validate with
          | .error e => .error (.manifest e)
          | .ok () => .ok (some (etag, digest, m))

/-- A pointer write that goes through, noted with the push that made it. -/
def installPointer (s : GitStore) (i : PushId) (pkey : String) (body : ByteArray) : GitStore :=
  { s with
    pointers := Function.update s.pointers pkey (some (B.etag s.versions body, body))
    versions := s.versions + 1
    installed := Function.update s.installed pkey (s.installed pkey ++ [(i, body)]) }

end Backend

end Buzz
