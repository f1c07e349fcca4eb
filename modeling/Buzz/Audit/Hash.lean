import Buzz.Lib.Chrono
import Buzz.Lib.Sha256
import Buzz.Lib.Uuid

namespace Buzz.Audit
set_option autoImplicit true
open Json

inductive AuditAction where
  | eventCreated
  | eventDeleted
  | channelCreated
  | channelUpdated
  | channelDeleted
  | memberAdded
  | memberRemoved
  | authSuccess
  | authFailure
  | rateLimitExceeded
  | mediaUploaded
deriving DecidableEq

namespace AuditAction

def asStr : AuditAction → String
  | eventCreated => "event_created"
  | eventDeleted => "event_deleted"
  | channelCreated => "channel_created"
  | channelUpdated => "channel_updated"
  | channelDeleted => "channel_deleted"
  | memberAdded => "member_added"
  | memberRemoved => "member_removed"
  | authSuccess => "auth_success"
  | authFailure => "auth_failure"
  | rateLimitExceeded => "rate_limit_exceeded"
  | mediaUploaded => "media_uploaded"

def all : List AuditAction :=
  [eventCreated, eventDeleted, channelCreated, channelUpdated, channelDeleted, memberAdded,
    memberRemoved, authSuccess, authFailure, rateLimitExceeded, mediaUploaded]

def fromStr (s : String) : Option AuditAction :=
  all.find? fun a => a.asStr == s

theorem mem_all (a : AuditAction) : a ∈ all := by
  cases a <;> decide

theorem fromStr_asStr (a : AuditAction) : fromStr a.asStr = some a := by
  cases a <;> decide

/-- No action's name goes on as another one's. -/
theorem prefixCode_asStr : PrefixCode fun a : AuditAction => a.asStr.toList := by
  have hdistinct : ∀ a ∈ all, ∀ b ∈ all, a.asStr.toList <+: b.asStr.toList → a = b := by decide
  intro a b x y h
  rcases List.prefix_or_prefix_of_prefix (List.prefix_append _ x) (h ▸ List.prefix_append _ y)
    with hp | hp
  · exact hdistinct a (mem_all a) b (mem_all b) hp
  · exact (hdistinct b (mem_all b) a (mem_all a) hp).symm

end AuditAction

/-- An entry as it stands in `audit_log`. `F` are the floating-point numbers of its details. -/
structure AuditEntry (F : Type) where
  communityId : Uuid
  seq : Int64
  hash : List UInt8
  prevHash : Option (List UInt8)
  action : AuditAction
  actorPubkey : Option (List UInt8)
  objectId : Option String
  detail : Value F
  createdAt : DateTime

/-- Hashed in place of the hash that the first entry of a community does not have. -/
def GENESIS_HASH : List UInt8 :=
  List.replicate 32 0

def toStoragePrecision (createdAt : DateTime) : DateTime :=
  createdAt.truncSubsecs 6

variable {F : Type} (fmt : FloatFormat F)

mutual

def canonicalJson : Value F → List Char
  | .object members =>
    printObject ((collect (canonicalMembers members)).map fun m => printMember m.1 m.2)
  | .array items => printArray (canonicalItems items)
  | .null => write fmt .null
  | .bool b => write fmt (.bool b)
  | .number n => write fmt (.number n)
  | .string s => write fmt (.string s)

def canonicalItems : List (Value F) → List (List Char)
  | [] => []
  | v :: vs => canonicalJson v :: canonicalItems vs

def canonicalMembers : List (String × Value F) → List (String × List Char)
  | [] => []
  | (k, v) :: ms => (k, canonicalJson v) :: canonicalMembers ms

end

/-- A presence tag and the bytes, if there are any. -/
def tagged : Option (List UInt8) → List UInt8
  | some bytes => 1 :: bytes
  | none => [0]

def objectBytes (e : AuditEntry F) : List UInt8 :=
  tagged (e.objectId.map fun id => utf8Bytes id.toList)

def detailBytes (e : AuditEntry F) : List UInt8 :=
  utf8Bytes (canonicalJson fmt e.detail)

def prevBytes (e : AuditEntry F) : List UInt8 :=
  e.prevHash.getD GENESIS_HASH

/-- The bytes that `computeHash` feeds to the digest, in the order of its updates. -/
def preimage (e : AuditEntry F) : List UInt8 :=
  e.communityId.toBytes ++ (int64Bytes e.seq ++
    (utf8Bytes (toStoragePrecision e.createdAt).toRfc3339 ++ (utf8Bytes e.action.asStr.toList ++
      (tagged e.actorPubkey ++ (objectBytes e ++ (detailBytes fmt e ++ prevBytes e))))))

def computeHash (sha256 : ByteArray → HexId 64) (e : AuditEntry F) : List UInt8 :=
  (sha256 (preimage fmt e).toByteArray).toBytes

/-- The entries agree on everything that is hashed, with the details as JSON values and no
previous hash as the genesis hash. -/
structure Agrees (a b : AuditEntry F) : Prop where
  communityId : a.communityId = b.communityId
  seq : a.seq = b.seq
  createdAt : toStoragePrecision a.createdAt = toStoragePrecision b.createdAt
  action : a.action = b.action
  actorPubkey : a.actorPubkey = b.actorPubkey
  objectId : a.objectId = b.objectId
  detail : sortKeys a.detail = sortKeys b.detail
  prevHash : prevBytes a = prevBytes b

/-- The fields in front of the actor, which end where their own bytes say. -/
structure SameHead (a b : AuditEntry F) : Prop where
  communityId : a.communityId = b.communityId
  seq : a.seq = b.seq
  createdAt : toStoragePrecision a.createdAt = toStoragePrecision b.createdAt
  action : a.action = b.action

/-- The actor key of `b` goes on with bytes that stand behind the actor key of `a`. -/
def ActorRunsOn (a b : AuditEntry F) : Prop :=
  ∃ pk w, w ≠ [] ∧ a.actorPubkey = some pk ∧ b.actorPubkey = some (pk ++ w) ∧
    objectBytes a ++ (detailBytes fmt a ++ prevBytes a) =
      w ++ (objectBytes b ++ (detailBytes fmt b ++ prevBytes b))

/-- The object id of `b` goes on with bytes of the detail of `a`. -/
def ObjectRunsOn (a b : AuditEntry F) : Prop :=
  a.actorPubkey = b.actorPubkey ∧
    ∃ id text, text ≠ "" ∧ a.objectId = some id ∧ b.objectId = some (id ++ text) ∧
      detailBytes fmt a ++ prevBytes a = utf8Bytes text.toList ++ (detailBytes fmt b ++ prevBytes b)

/-- The detail of `b` goes on with bytes of the previous hash of `a`. -/
def DetailRunsOn (a b : AuditEntry F) : Prop :=
  a.actorPubkey = b.actorPubkey ∧ a.objectId = b.objectId ∧
    ∃ w, w ≠ [] ∧ detailBytes fmt b = detailBytes fmt a ++ w ∧ prevBytes a = w ++ prevBytes b

/-- A field of `b` without a length runs on into what `a` has behind it. -/
def RunsOn (a b : AuditEntry F) : Prop :=
  ActorRunsOn fmt a b ∨ ObjectRunsOn fmt a b ∨ DetailRunsOn fmt a b

variable {fmt}

theorem canonicalItems_eq (vs : List (Value F)) :
    canonicalItems fmt vs = vs.map (canonicalJson fmt) := by
  induction vs with
  | nil => rfl
  | cons v vs ih => rw [canonicalItems, ih, List.map_cons]

theorem canonicalMembers_eq (ms : List (String × Value F)) :
    canonicalMembers fmt ms = ms.map fun m => (m.1, canonicalJson fmt m.2) := by
  induction ms with
  | nil => rfl
  | cons m ms ih => rw [canonicalMembers, ih, List.map_cons]

/-- The canonical text is the text of the value with its keys in order. -/
theorem canonicalJson_eq (v : Value F) : canonicalJson fmt v = write fmt (sortKeys v) := by
  induction v using Value.ind with
  | null => rfl
  | bool b => rfl
  | number n => rfl
  | string s => rfl
  | array items ih =>
    rw [canonicalJson, sortKeys, write, canonicalItems_eq, writeItems_eq, sortItems_eq,
      List.map_map, List.map_congr_left ih]
    rfl
  | object members ih =>
    have hmembers : members.map (fun m => (m.1, canonicalJson fmt m.2)) =
        (members.map fun m => (m.1, sortKeys m.2)).map fun m => (m.1, write fmt m.2) := by
      rw [List.map_map]
      apply List.map_congr_left
      intro m hm
      rw [ih m hm]
      rfl
    rw [canonicalJson, sortKeys, write, canonicalMembers_eq, writeMembers_eq, sortMembers_eq,
      hmembers, collect_map, List.map_map]
    rfl

theorem detailBytes_inj {a b : AuditEntry F} :
    detailBytes fmt a = detailBytes fmt b ↔ sortKeys a.detail = sortKeys b.detail := by
  rw [detailBytes, detailBytes, canonicalJson_eq, canonicalJson_eq]
  constructor
  · intro h
    exact write_injective (utf8Bytes_injective h)
  · intro h
    rw [h]

theorem tagged_injective : Function.Injective tagged := by
  intro x y h
  cases x with
  | none =>
    cases y with
    | none => rfl
    | some v => exact absurd (List.head_eq_of_cons_eq h) (by decide)
  | some u =>
    cases y with
    | none => exact absurd (List.head_eq_of_cons_eq h) (by decide)
    | some v => rw [List.tail_eq_of_cons_eq h]

theorem objectBytes_inj {a b : AuditEntry F} :
    objectBytes a = objectBytes b ↔ a.objectId = b.objectId := by
  have hid : Function.Injective fun id : String => utf8Bytes id.toList :=
    fun s t h => String.toList_injective (utf8Bytes_injective h)
  constructor
  · intro h
    exact Option.map_injective hid (tagged_injective h)
  · intro h
    rw [objectBytes, objectBytes, h]

/-- Two ways to cut bytes into a tagged field and the rest: the fields are the same, or one of
them runs on. -/
theorem tagged_append_cases (h : tagged u ++ x = tagged v ++ y) :
    (u = v ∧ x = y) ∨ (∃ p w, w ≠ [] ∧ u = some p ∧ v = some (p ++ w) ∧ x = w ++ y) ∨
      ∃ p w, w ≠ [] ∧ v = some p ∧ u = some (p ++ w) ∧ y = w ++ x := by
  cases u with
  | none =>
    cases v with
    | none => exact .inl ⟨rfl, List.tail_eq_of_cons_eq h⟩
    | some q => exact absurd (List.head_eq_of_cons_eq h) (by decide)
  | some p =>
    cases v with
    | none => exact absurd (List.head_eq_of_cons_eq h) (by decide)
    | some q =>
      have htail : p ++ x = q ++ y := List.tail_eq_of_cons_eq h
      rcases List.append_eq_append_iff.mp htail with ⟨w, hq, hx⟩ | ⟨w, hp, hy⟩
      · cases w with
        | nil =>
          rw [List.append_nil] at hq
          exact .inl ⟨by rw [hq], hx⟩
        | cons c w => exact .inr (.inl ⟨p, c :: w, List.cons_ne_nil _ _, rfl, by rw [hq], hx⟩)
      · cases w with
        | nil =>
          rw [List.append_nil] at hp
          exact .inl ⟨by rw [hp], hy.symm⟩
        | cons c w => exact .inr (.inr ⟨q, c :: w, List.cons_ne_nil _ _, rfl, by rw [hp], hy⟩)

/-- The bytes by which one text goes on as another are a text. -/
theorem utf8_suffix {s t : String} (h : utf8Bytes t.toList = utf8Bytes s.toList ++ w) (hw : w ≠ []) :
    ∃ text : String, text ≠ "" ∧ t = s ++ text ∧ w = utf8Bytes text.toList := by
  have hcut : utf8Bytes s.toList ++ w = utf8Bytes t.toList ++ [] := by
    rw [List.append_nil, h]
  have hpre : s.toList <+: t.toList := by
    rcases prefixCode_utf8EncodeChar.prefix_or_prefix hcut with hp | ⟨u, hu⟩
    · exact hp
    · rw [← hu, utf8Bytes_append, List.append_assoc] at h
      have hnil := List.append_right_eq_self.mp h.symm
      exact (hw (List.append_eq_nil_iff.mp hnil).2).elim
  obtain ⟨u, hu⟩ := hpre
  rw [← hu, utf8Bytes_append] at h
  have hwu := List.append_cancel_left h
  refine ⟨String.ofList u, ?_, ?_, ?_⟩
  · intro he
    apply hw
    rw [← hwu, ← String.toList_ofList (l := u), he]
    rfl
  · apply String.toList_injective
    rw [String.toList_append, String.toList_ofList, hu]
  · rw [String.toList_ofList, hwu]

theorem objectBytes_append_cases {a b : AuditEntry F} (h : objectBytes a ++ x = objectBytes b ++ y) :
    (a.objectId = b.objectId ∧ x = y) ∨
      (∃ id text, text ≠ "" ∧ a.objectId = some id ∧ b.objectId = some (id ++ text) ∧
        x = utf8Bytes text.toList ++ y) ∨
      ∃ id text, text ≠ "" ∧ b.objectId = some id ∧ a.objectId = some (id ++ text) ∧
        y = utf8Bytes text.toList ++ x := by
  have hrun {a b : AuditEntry F} {x y p w : List UInt8} (hw : w ≠ [])
      (ha : (a.objectId.map fun id => utf8Bytes id.toList) = some p)
      (hb : (b.objectId.map fun id => utf8Bytes id.toList) = some (p ++ w)) (hx : x = w ++ y) :
      ∃ id text, text ≠ "" ∧ a.objectId = some id ∧ b.objectId = some (id ++ text) ∧
        x = utf8Bytes text.toList ++ y := by
    obtain ⟨s, hs, rfl⟩ := Option.map_eq_some_iff.mp ha
    obtain ⟨t, ht, htw⟩ := Option.map_eq_some_iff.mp hb
    obtain ⟨text, htext, rfl, rfl⟩ := utf8_suffix htw hw
    exact ⟨s, text, htext, hs, ht, hx⟩
  rcases tagged_append_cases h with ⟨he, hx⟩ | ⟨p, w, hw, ha, hb, hx⟩ | ⟨p, w, hw, hb, ha, hy⟩
  · exact .inl ⟨objectBytes_inj.mp (congrArg tagged he), hx⟩
  · exact .inr (.inl (hrun hw ha hb hx))
  · exact .inr (.inr (hrun hw hb ha hy))

theorem detailBytes_append_cases {a b : AuditEntry F}
    (h : detailBytes fmt a ++ x = detailBytes fmt b ++ y) :
    (sortKeys a.detail = sortKeys b.detail ∧ x = y) ∨
      (∃ w, w ≠ [] ∧ detailBytes fmt b = detailBytes fmt a ++ w ∧ x = w ++ y) ∨
      ∃ w, w ≠ [] ∧ detailBytes fmt a = detailBytes fmt b ++ w ∧ y = w ++ x := by
  rcases List.append_eq_append_iff.mp h with ⟨w, hb, hx⟩ | ⟨w, ha, hy⟩
  · cases w with
    | nil =>
      rw [List.append_nil] at hb
      exact .inl ⟨(detailBytes_inj.mp hb).symm, hx⟩
    | cons c w => exact .inr (.inl ⟨c :: w, List.cons_ne_nil _ _, hb, hx⟩)
  · cases w with
    | nil =>
      rw [List.append_nil] at ha
      exact .inl ⟨detailBytes_inj.mp ha, hy.symm⟩
    | cons c w => exact .inr (.inr ⟨c :: w, List.cons_ne_nil _ _, ha, hy⟩)

/-- The head of the bytes says where it ends. -/
theorem head_cut {a b : AuditEntry F} (h : preimage fmt a = preimage fmt b) :
    SameHead a b ∧ tagged a.actorPubkey ++ (objectBytes a ++ (detailBytes fmt a ++ prevBytes a)) =
      tagged b.actorPubkey ++ (objectBytes b ++ (detailBytes fmt b ++ prevBytes b)) := by
  obtain ⟨hcommunity, h⟩ := (HexId.prefixCode_toBytes 16).cut h
  obtain ⟨hseq, h⟩ := prefixCode_int64Bytes.cut h
  obtain ⟨hcreated, h⟩ := (DateTime.prefixCode_toRfc3339.flatMap prefixCode_utf8EncodeChar).cut h
  obtain ⟨haction, h⟩ := (AuditAction.prefixCode_asStr.flatMap prefixCode_utf8EncodeChar).cut h
  exact ⟨⟨hcommunity, hseq, hcreated, haction⟩, h⟩

/-- Equal bytes come from the same fields, or from a field that runs on. -/
theorem preimage_cases {a b : AuditEntry F} (h : preimage fmt a = preimage fmt b) :
    Agrees a b ∨ SameHead a b ∧ (RunsOn fmt a b ∨ RunsOn fmt b a) := by
  obtain ⟨hhead, htail⟩ := head_cut h
  rcases tagged_append_cases htail with
    ⟨hactor, hobject⟩ | ⟨p, w, hw, ha, hb, hx⟩ | ⟨p, w, hw, hb, ha, hy⟩
  · rcases objectBytes_append_cases hobject with
      ⟨hid, hdetail⟩ | ⟨id, text, ht, ha, hb, hx⟩ | ⟨id, text, ht, hb, ha, hy⟩
    · rcases detailBytes_append_cases hdetail with ⟨hvalue, hprev⟩ | ⟨w, hw, hb, hx⟩ | ⟨w, hw, ha, hy⟩
      · exact .inl ⟨hhead.communityId, hhead.seq, hhead.createdAt, hhead.action, hactor, hid, hvalue,
          hprev⟩
      · exact .inr ⟨hhead, .inl (.inr (.inr ⟨hactor, hid, w, hw, hb, hx⟩))⟩
      · exact .inr ⟨hhead, .inr (.inr (.inr ⟨hactor.symm, hid.symm, w, hw, ha, hy⟩))⟩
    · exact .inr ⟨hhead, .inl (.inr (.inl ⟨hactor, id, text, ht, ha, hb, hx⟩))⟩
    · exact .inr ⟨hhead, .inr (.inr (.inl ⟨hactor.symm, id, text, ht, hb, ha, hy⟩))⟩
  · exact .inr ⟨hhead, .inl (.inl ⟨p, w, hw, ha, hb, hx⟩)⟩
  · exact .inr ⟨hhead, .inr (.inl ⟨p, w, hw, hb, ha, hy⟩)⟩

theorem SameHead.symm {a b : AuditEntry F} (h : SameHead a b) : SameHead b a :=
  ⟨h.communityId.symm, h.seq.symm, h.createdAt.symm, h.action.symm⟩

theorem Agrees.symm {a b : AuditEntry F} (h : Agrees a b) : Agrees b a :=
  ⟨h.communityId.symm, h.seq.symm, h.createdAt.symm, h.action.symm, h.actorPubkey.symm,
    h.objectId.symm, h.detail.symm, h.prevHash.symm⟩

theorem SameHead.preimage_eq {a b : AuditEntry F} (h : SameHead a b)
    (htail : tagged a.actorPubkey ++ (objectBytes a ++ (detailBytes fmt a ++ prevBytes a)) =
      tagged b.actorPubkey ++ (objectBytes b ++ (detailBytes fmt b ++ prevBytes b))) :
    preimage fmt a = preimage fmt b := by
  rw [preimage, preimage, h.communityId, h.seq, h.createdAt, h.action, htail]

/-- A field that runs on leaves the bytes as they are. -/
theorem RunsOn.preimage_eq {a b : AuditEntry F} (h : RunsOn fmt a b) (hhead : SameHead a b) :
    preimage fmt a = preimage fmt b := by
  apply hhead.preimage_eq
  rcases h with ⟨p, w, _, ha, hb, hx⟩ | ⟨hactor, id, text, _, ha, hb, hx⟩ |
    ⟨hactor, hid, w, _, hb, hx⟩
  · rw [ha, hb, hx, tagged, tagged, List.cons_append, List.cons_append, List.append_assoc]
  · have hobject : objectBytes b = objectBytes a ++ utf8Bytes text.toList := by
      rw [objectBytes, objectBytes, ha, hb, Option.map_some, Option.map_some, String.toList_append,
        utf8Bytes_append]
      rfl
    rw [hactor, hobject, hx, List.append_assoc]
  · rw [hactor, objectBytes_inj.mpr hid, hb, hx, List.append_assoc]

/-- Entries between which a field runs on differ in that field. -/
theorem RunsOn.not_agrees {a b : AuditEntry F} (h : RunsOn fmt a b) : ¬Agrees a b := by
  intro hagrees
  rcases h with ⟨p, w, hw, ha, hb, _⟩ | ⟨_, id, text, ht, ha, hb, _⟩ | ⟨_, _, w, hw, hb, _⟩
  · have he := hagrees.actorPubkey
    rw [ha, hb, Option.some.injEq] at he
    exact hw (List.append_right_eq_self.mp he.symm)
  · have he := hagrees.objectId
    rw [ha, hb, Option.some.injEq] at he
    have hl := congrArg String.toList he
    rw [String.toList_append] at hl
    exact ht (String.toList_eq_nil_iff.mp (List.append_right_eq_self.mp hl.symm))
  · have he : detailBytes fmt a = detailBytes fmt b := detailBytes_inj.mpr hagrees.detail
    rw [hb] at he
    exact hw (List.append_right_eq_self.mp he.symm)

theorem preimage_eq_of_computeHash {sha256 : ByteArray → HexId 64} {a b : AuditEntry F}
    (hsha : sha256 (preimage fmt a).toByteArray = sha256 (preimage fmt b).toByteArray →
      preimage fmt a = preimage fmt b)
    (h : computeHash fmt sha256 a = computeHash fmt sha256 b) : preimage fmt a = preimage fmt b := by
  have hbytes : (sha256 (preimage fmt a).toByteArray).toBytes ++ [] =
      (sha256 (preimage fmt b).toByteArray).toBytes ++ [] := congrArg (· ++ []) h
  exact hsha ((HexId.prefixCode_toBytes 32).cut hbytes).1

namespace HashExample

/-- 2026-01-01T00:00:00Z -/
def newYear : DateTime where
  year := 2026
  month := 1
  day := 1
  hour := 0
  minute := 0
  second := 0
  nanosecond := 0
  year_range := by decide
  month_range := by decide
  day_range := by decide
  hour_lt := by decide
  minute_lt := by decide
  second_lt := by decide
  nanosecond_lt := by decide
  leap := by decide

def entry (action : AuditAction) (id : String) (n : UInt64) : AuditEntry FloatText where
  communityId := HexId.ofNat 32 1
  seq := 1
  hash := []
  prevHash := none
  action := action
  actorPubkey := none
  objectId := some id
  detail := .number (.posInt n)
  createdAt := newYear

end HashExample

open HashExample

end Buzz.Audit
