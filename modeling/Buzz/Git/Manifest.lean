import Buzz.Lib.Json
import Buzz.Lib.Sorted
import Buzz.Lib.Utf8

namespace Buzz
set_option autoImplicit true
open Hex Json

abbrev RefMap := Std.ExtTreeMap String String

def MANIFEST_VERSION : UInt32 := 1
def MAX_MANIFEST_PACKS : Nat := 128
def PACK_COMPACTION_THRESHOLD : Nat := MAX_MANIFEST_PACKS * 3 / 4
def MAX_MANIFEST_REFS : Nat := 10000

/-- The published state of a repository. -/
structure Manifest where
  version : UInt32
  head : String
  refs : RefMap
  packs : List String
  parent : Option String

inductive ManifestError where
  | serde
  | unsupportedVersion (got expected : UInt32)
  | unsafeRefName (name : String)
  | malformedOid (refname oid : String)
  | emptyHead
  | malformedParent (parent : String)
  | tooManyPacks (got max : Nat)
  | tooManyRefs (got max : Nat)
  | malformedPackKey (key : String)
deriving DecidableEq

/-- Two equal characters side by side. -/
def hasDouble (c : Char) : List Char → Bool
  | a :: b :: cs => (a == c && b == c) || hasDouble c (b :: cs)
  | _ => false

def isSafeChar (c : Char) : Bool :=
  c.isAlphanum || c == '/' || c == '_' || c == '.' || c == '-'

def isSafeRefname (s : String) : Bool :=
  "refs/".toList.isPrefixOf s.toList &&
    !(hasDouble '.' s.toList || hasDouble '/' s.toList || s.toList.head? == some '/' ||
      s.toList.getLast? == some '/') &&
    s.toList.all isSafeChar

def isAsciiHexdigit (c : Char) : Bool :=
  (digitVal c).isSome

def isHexOid (s : String) : Bool :=
  (s.utf8ByteSize == 40 || s.utf8ByteSize == 64) && s.toList.all isAsciiHexdigit

def isLowerHex (c : Char) : Bool :=
  ('0' ≤ c && c ≤ '9') || ('a' ≤ c && c ≤ 'f')

def isManifestDigest (s : String) : Bool :=
  s.utf8ByteSize == 64 && s.toList.all isLowerHex

def stripPrefix (pre s : String) : Option String :=
  (s.toList.dropPrefix? pre.toList).map String.ofList

def isPackKey (s : String) : Bool :=
  (stripPrefix "packs/" s).any isManifestDigest

theorem stripPrefix_append (pre s : String) : stripPrefix pre (pre ++ s) = some s := by
  rw [stripPrefix, String.toList_append, List.dropPrefix?_append_of_beq _ (beq_self_eq_true _),
    Option.map_some, String.ofList_toList]

namespace Manifest

def checkRefs : List (String × String) → Except ManifestError Unit
  | [] => .ok ()
  | (refname, oid) :: refs =>
    if !isSafeRefname refname then .error (.unsafeRefName refname)
    else if !isHexOid oid then .error (.malformedOid refname oid)
    else checkRefs refs

def checkPacks : List String → Except ManifestError Unit
  | [] => .ok ()
  | pack :: packs => if !isPackKey pack then .error (.malformedPackKey pack) else checkPacks packs

def validate (m : Manifest) : Except ManifestError Unit :=
  if MAX_MANIFEST_PACKS < m.packs.length then
    .error (.tooManyPacks m.packs.length MAX_MANIFEST_PACKS)
  else if MAX_MANIFEST_REFS < m.refs.size then
    .error (.tooManyRefs m.refs.size MAX_MANIFEST_REFS)
  else if m.head = "" then .error .emptyHead
  else if !isSafeRefname m.head then .error (.unsafeRefName m.head)
  else do
    checkRefs m.refs.toList
    checkPacks m.packs
    match m.parent with
    | some p => if !isManifestDigest p then .error (.malformedParent p) else .ok ()
    | none => .ok ()

/-- `serde_json::to_vec`: the fields in the order of their declaration, without blanks. -/
def print (m : Manifest) : List Char :=
  printObject
    [printMember "version" (printNat m.version.toNat),
      printMember "head" (printString m.head),
      printMember "refs" (printObject (m.refs.toList.map fun r =>
        printMember r.1 (printString r.2))),
      printMember "packs" (printArray (m.packs.map printString)),
      printMember "parent" (printOption printString m.parent)]

def canonicalBytes (m : Manifest) : ByteArray :=
  (String.ofList { m with packs := sortDedup m.packs }.print).toUTF8

/-- A field of the derived deserializer. -/
inductive Field where
  | version (v : UInt32)
  | head (s : String)
  | refs (refs : RefMap)
  | packs (packs : List String)
  | parent (parent : Option String)
  | ignored

def parseVersion : Parser UInt32 := fun cs =>
  (parseUnsigned (2 ^ 32) cs).map fun r => (UInt32.ofNat r.1, r.2)

/-- One entry of the ref map. -/
def parseRef (name : String) : Parser (String × String) := fun cs =>
  (parseString cs).map fun r => ((name, r.1), r.2)

def parseRefs : Parser RefMap := fun cs =>
  (parseObject parseRef cs).map fun r => (Std.ExtTreeMap.ofList r.1 compare, r.2)

def parseField (name : String) : Parser Field := fun cs =>
  if name = "version" then (parseVersion cs).map fun r => (.version r.1, r.2)
  else if name = "head" then (parseString cs).map fun r => (.head r.1, r.2)
  else if name = "refs" then (parseRefs cs).map fun r => (.refs r.1, r.2)
  else if name = "packs" then (parseArray parseString cs).map fun r => (.packs r.1, r.2)
  else if name = "parent" then (parseOption parseString cs).map fun r => (.parent r.1, r.2)
  else (skipValue cs.length cs).map fun r => (.ignored, r.2)

/-- The fields read so far. -/
structure Partial where
  version : Option UInt32
  head : Option String
  refs : Option RefMap
  packs : Option (List String)
  parent : Option (Option String)

/-- A field that comes twice is refused. -/
def Partial.add (p : Partial) : Field → Option Partial
  | .version v => if p.version.isSome then none else some { p with version := some v }
  | .head s => if p.head.isSome then none else some { p with head := some s }
  | .refs r => if p.refs.isSome then none else some { p with refs := some r }
  | .packs l => if p.packs.isSome then none else some { p with packs := some l }
  | .parent o => if p.parent.isSome then none else some { p with parent := some o }
  | .ignored => some p

/-- Only `parent` may be missing. -/
def Partial.finish (p : Partial) : Option Manifest :=
  match p.version, p.head, p.refs, p.packs with
  | some version, some head, some refs, some packs =>
    some ⟨version, head, refs, packs, p.parent.join⟩
  | _, _, _, _ => none

def assemble (fields : List Field) : Option Manifest :=
  (fields.foldlM Partial.add ⟨none, none, none, none, none⟩).bind Partial.finish

def expect (c : Char) (cs : List Char) : Option (List Char) :=
  match skipWs cs with
  | d :: rest => if d = c then some rest else none
  | [] => none

/-- A struct may also be written as the array of its fields. -/
def parsePositional : Parser Manifest := fun cs => do
  let cs ← expect '[' cs
  let (version, cs) ← parseVersion cs
  let cs ← expect ',' cs
  let (head, cs) ← parseString cs
  let cs ← expect ',' cs
  let (refs, cs) ← parseRefs cs
  let cs ← expect ',' cs
  let (packs, cs) ← parseArray parseString cs
  let cs ← expect ',' cs
  let (parent, cs) ← parseOption parseString cs
  let cs ← expect ']' cs
  return (⟨version, head, refs, packs, parent⟩, cs)

def parse : Parser Manifest := fun cs =>
  if (skipWs cs).head? = some '[' then parsePositional cs
  else (parseObject parseField cs).bind fun r => (assemble r.1).map fun m => (m, r.2)

def fromBytes (bytes : ByteArray) : Except ManifestError Manifest :=
  match (String.fromUTF8? bytes).bind fun s => parseDocument parse s.toList with
  | none => .error .serde
  | some m =>
    if m.version ≠ MANIFEST_VERSION then .error (.unsupportedVersion m.version MANIFEST_VERSION)
    else .ok m

theorem reads_version_one : Reads parseVersion (printNat MANIFEST_VERSION.toNat) MANIFEST_VERSION where
  starts := ⟨'1', [], rfl, rfl, by decide, by decide⟩
  reads rest hrest := by
    have hstop : rest.takeWhile isNumberChar = [] := by
      cases rest with
      | nil => rfl
      | cons c cs =>
        rcases hrest c rfl with rfl | rfl | rfl <;> rfl
    have hlex : ('1' :: rest).takeWhile isNumberChar = ['1'] := by
      rw [List.takeWhile_cons, hstop]
      rfl
    have hprint : printNat MANIFEST_VERSION.toNat = ['1'] := rfl
    rw [hprint, List.singleton_append, parseVersion, parseUnsigned, skipWs_cons rfl, hlex,
      if_pos (by decide)]
    rfl

theorem reads_field {p : Parser α} (f : α → Field)
    (hname : ∀ cs, parseField name cs = (p cs).map fun r => (f r.1, r.2))
    (h : Reads p text a) : Reads (parseField name) text (f a) where
  starts := h.starts
  reads rest hrest := by
    rw [hname, h.reads rest hrest]
    rfl

theorem reads_refs (refs : RefMap) :
    Reads parseRefs (printObject (refs.toList.map fun r => printMember r.1 (printString r.2)))
      refs := by
  have hmember : ∀ x ∈ refs.toList.map (fun r => (printMember r.1 (printString r.2), r)),
      Reads (parseMember parseRef) x.1 x.2 := by
    intro x hx
    obtain ⟨r, _, rfl⟩ := List.mem_map.mp hx
    apply reads_member
    refine ⟨(reads_string r.2).starts, fun rest hrest => ?_⟩
    rw [parseRef, (reads_string r.2).reads rest hrest]
    rfl
  have hobj := reads_object _ hmember
  rw [List.map_map, List.map_map] at hobj
  refine ⟨hobj.starts, fun rest hrest => ?_⟩
  have hread := hobj.reads rest hrest
  simp only [Function.comp_def] at hread
  rw [parseRefs, hread, Option.map_some, List.map_id', treeMap_ofList_toList]

theorem reads_packs (packs : List String) :
    Reads (parseArray parseString) (printArray (packs.map printString)) packs := by
  have hitem : ∀ x ∈ packs.map (fun s => (printString s, s)), Reads parseString x.1 x.2 := by
    intro x hx
    obtain ⟨s, _, rfl⟩ := List.mem_map.mp hx
    exact reads_string s
  have harr := reads_array _ hitem
  rw [List.map_map, List.map_map] at harr
  simp only [Function.comp_def, List.map_id'] at harr
  exact harr

theorem reads_parent (parent : Option String) :
    Reads (parseOption parseString) (printOption printString parent) parent := by
  cases parent with
  | none => exact reads_none _
  | some p => exact reads_some_string p

/-- A manifest of the current version reads back from its text. -/
theorem reads_print (m : Manifest) (hver : m.version = MANIFEST_VERSION) :
    Reads parse m.print m := by
  have hfields : ∀ x ∈
      [(printMember "version" (printNat m.version.toNat), Field.version m.version),
        (printMember "head" (printString m.head), Field.head m.head),
        (printMember "refs" (printObject (m.refs.toList.map fun r =>
          printMember r.1 (printString r.2))), Field.refs m.refs),
        (printMember "packs" (printArray (m.packs.map printString)), Field.packs m.packs),
        (printMember "parent" (printOption printString m.parent), Field.parent m.parent)],
      Reads (parseMember parseField) x.1 x.2 := by
    rw [List.forall_mem_cons, List.forall_mem_cons, List.forall_mem_cons, List.forall_mem_cons,
      List.forall_mem_singleton]
    refine ⟨?_, ?_, ?_, ?_, ?_⟩
    · rw [hver]
      exact reads_member (reads_field .version (fun _ => rfl) reads_version_one)
    · exact reads_member (reads_field .head (fun _ => rfl) (reads_string m.head))
    · exact reads_member (reads_field .refs (fun _ => rfl) (reads_refs m.refs))
    · exact reads_member (reads_field .packs (fun _ => rfl) (reads_packs m.packs))
    · exact reads_member (reads_field .parent (fun _ => rfl) (reads_parent m.parent))
  have hobj := reads_object _ hfields
  refine ⟨hobj.starts, fun rest hrest => ?_⟩
  have hread : parseObject parseField (m.print ++ rest) =
      some ([.version m.version, .head m.head, .refs m.refs, .packs m.packs, .parent m.parent],
        rest) := hobj.reads rest hrest
  have hskip : skipWs (m.print ++ rest) = m.print ++ rest := hobj.skipWs_eq
  have hopen : (m.print ++ rest).head? = some '\x7b' := rfl
  rw [parse, hskip, hopen, if_neg (by decide), hread]
  rfl

/-- `from_bytes` undoes `canonical_bytes` up to the order and repetition of the packs. -/
theorem fromBytes_canonicalBytes (m : Manifest) (hver : m.version = MANIFEST_VERSION) :
    fromBytes m.canonicalBytes = .ok { m with packs := sortDedup m.packs } := by
  have hread := reads_print { m with packs := sortDedup m.packs } hver
  rw [fromBytes, canonicalBytes, fromUTF8_toUTF8, Option.bind_some, String.toList_ofList,
    parseDocument_of_reads hread]
  dsimp only
  rw [if_neg (not_not.mpr hver)]

end Manifest

end Buzz
