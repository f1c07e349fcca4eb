import Buzz.Lib.Table
import Buzz.Unread.Register

namespace Buzz.Unread
set_option autoImplicit true

def ESCAPE_PREFIX : String := "esc:"

def RESERVED_STEM : String := "ov_"

def startsWith (key stem : String) : Bool :=
  stem.toList.isPrefixOf key.toList

/-- `key[n:]`. -/
def dropChars (n : ℕ) (key : String) : String :=
  String.ofList (key.toList.drop n)

def needsEscape (rawKey : String) : Bool :=
  startsWith rawKey RESERVED_STEM || startsWith rawKey ESCAPE_PREFIX

def escapeContextKey (rawKey : String) : String :=
  if needsEscape rawKey then ESCAPE_PREFIX ++ rawKey else rawKey

def unescapeContextKey (wireKey : String) : String :=
  if startsWith wireKey ESCAPE_PREFIX then dropChars 4 wireKey else wireKey

/-- A published state, with its keys in the order of the writer. -/
structure Blob where
  v : ℕ
  clientId : String
  contexts : List (String × ℕ)
deriving DecidableEq

/-- A device of candidate B. No value is ever below zero. -/
structure Device where
  clientId : String
  isLegacy : Bool
  frontier : Table String ℕ
  overrides : Table String RegB

namespace Device

def new (clientId : String) (isLegacy : Bool) : Device :=
  ⟨clientId, isLegacy, ∅, ∅⟩

def effectiveFrontier (d : Device) (ctx : String) : ℕ :=
  (d.frontier.lookup ctx).getD 0

def overrideIsSet (d : Device) (ctx : String) (tiePolicy : TiePolicy) : Bool :=
  overrideSetB (d.overrides.lookup ctx) (d.effectiveFrontier ctx) tiePolicy

def verdict (d : Device) (ctx : String) (latestTs : ℤ) (tiePolicy : TiePolicy) : Bool :=
  (d.effectiveFrontier ctx : ℤ) < latestTs || d.overrideIsSet ctx tiePolicy

def bump (s c : ℕ) : ℕ :=
  max s c + 1

def setOverride (ctx : String) (reg : RegB) (d : Device) : Device :=
  { d with overrides := d.overrides.insert ctx reg }

def doMarkUnread (ctx : String) (d : Device) : Device :=
  if d.isLegacy then d
  else
    let cur := (d.overrides.lookup ctx).getD {}
    d.setOverride ctx ⟨bump cur.s cur.c, cur.c, d.effectiveFrontier ctx⟩

def doAdvanceFrontier (ctx : String) (ts : ℤ) (d : Device) : Device :=
  { d with frontier := d.frontier.insert ctx (max (d.effectiveFrontier ctx) ts.toNat) }

def doMarkRead (ctx : String) (frontierTs : ℤ) (d : Device) : Device :=
  let moved := d.doAdvanceFrontier ctx frontierTs
  if moved.isLegacy then moved
  else
    let cur := (moved.overrides.lookup ctx).getD {}
    moved.setOverride ctx ⟨cur.s, bump cur.s cur.c, cur.b⟩

def doCompact (ctx : String) (tiePolicy : TiePolicy) (d : Device) : Device :=
  match d.overrides.lookup ctx with
  | none => d
  | some reg =>
    match compactB reg (d.effectiveFrontier ctx) tiePolicy with
    | none => { d with overrides := d.overrides.erase ctx }
    | some result => d.setOverride ctx result

def doReinstall (d : Device) : Device :=
  ⟨d.clientId ++ "_r", d.isLegacy, ∅, ∅⟩

/-- Whether an override is live, and how it is published. -/
def canonicalizeForPublish (ctx : String) (tiePolicy : TiePolicy) (d : Device) :
    Bool × Option RegB :=
  match d.overrides.lookup ctx with
  | none => (false, none)
  | some reg =>
    match compactB reg (d.effectiveFrontier ctx) tiePolicy with
    | none => (false, none)
    | some canonical =>
      (overrideSetB (some canonical) (d.effectiveFrontier ctx) tiePolicy, some canonical)

/-- The keys of one override. -/
def publishOverride (tiePolicy : TiePolicy) (d : Device) (k : String) : List (String × ℕ) :=
  match d.canonicalizeForPublish k tiePolicy with
  | (_, none) => []
  | (true, some canonical) =>
    [("ov_s:" ++ k, canonical.s), ("ov_c:" ++ k, canonical.c), ("ov_b:" ++ k, canonical.b)]
  | (false, some canonical) => [("ov_c:" ++ k, canonical.c)]

def publishBlob (tiePolicy : TiePolicy) (d : Device) : Blob :=
  ⟨1, d.clientId, d.frontier.entries.map (fun e => (escapeContextKey e.1, e.2)) ++
    if d.isLegacy then []
    else d.overrides.entries.flatMap fun e => d.publishOverride tiePolicy e.1⟩

/-- What `receive_merge` reads of a blob: the frontier that it moves on the way, and the parts of
each override. -/
structure Incoming where
  frontier : Table String ℕ
  overrides : Table String RegB

def receiveKey (r : Incoming) (e : String × ℕ) : Incoming :=
  if startsWith e.1 "ov_s:" then
    let ctx := dropChars 5 e.1
    { r with overrides := r.overrides.insert ctx { (r.overrides.lookup ctx).getD {} with s := e.2 } }
  else if startsWith e.1 "ov_c:" then
    let ctx := dropChars 5 e.1
    { r with overrides := r.overrides.insert ctx { (r.overrides.lookup ctx).getD {} with c := e.2 } }
  else if startsWith e.1 "ov_b:" then
    let ctx := dropChars 5 e.1
    { r with overrides := r.overrides.insert ctx { (r.overrides.lookup ctx).getD {} with b := e.2 } }
  else
    let ctx := unescapeContextKey e.1
    { r with frontier := r.frontier.insert ctx (max ((r.frontier.lookup ctx).getD 0) e.2) }

def mergeOverrides (overrides incoming : Table String RegB) : Table String RegB :=
  incoming.entries.foldl (fun t e =>
    t.insert e.1 ((mergeRegB (t.lookup e.1) (some e.2)).getD e.2)) overrides

def receiveMerge (blob : Blob) (d : Device) : Device :=
  let r := blob.contexts.foldl receiveKey ⟨d.frontier, ∅⟩
  { d with
    frontier := r.frontier
    overrides := if d.isLegacy then d.overrides else mergeOverrides d.overrides r.overrides }

/-- What a device knows of a context. -/
def view (d : Device) (ctx : String) : View :=
  Unread.view (d.effectiveFrontier ctx) (d.overrides.lookup ctx)

end Device

/-- What a blob tells of a context: what a new device knows when it has received it. -/
def Blob.view (blob : Blob) (ctx : String) : View :=
  ((Device.new "" false).receiveMerge blob).view ctx

end Buzz.Unread
