import Buzz.Core.Engram
import Buzz.Lib.JsonGrammar

namespace Buzz.Engram
set_option autoImplicit true
open Json

/-- A decoded body. The slug says which variant it is; no value is a tombstone. -/
inductive Body where
  | core (profile : String)
  | memory (slug : String) (value : Option String)
deriving DecidableEq

inductive BodyError where
  /-- What the JSON reader says, a repeated name and trailing data included. -/
  | invalidJson
  | invalidBody (why : String)
  | invalidSlug (problem : SlugProblem)

def Body.slug : Body → String
  | .core _ => CORE_SLUG
  | .memory slug _ => slug

/-- Four hexadecimal digits. -/
def hex4 (n : Nat) : List Char :=
  [n / 4096, n / 256, n / 16, n].map fun d => Hex.digitChar (Fin.ofNat 16 d)

def writeJsonChar (ch : Char) : List Char :=
  if ch = '"' then ['\\', '"']
  else if ch = '\\' then ['\\', '\\']
  else if ch = '\x08' then ['\\', 'b']
  else if ch = '\x0c' then ['\\', 'f']
  else if ch = '\n' then ['\\', 'n']
  else if ch = '\r' then ['\\', 'r']
  else if ch = '\t' then ['\\', 't']
  else if ch.toNat < 32 then '\\' :: 'u' :: hex4 ch.toNat
  else [ch]

def writeJsonString (s : String) : List Char :=
  '"' :: (s.toList.flatMap writeJsonChar ++ ['"'])

def Body.toJson (body : Body) : List Char :=
  '\x7b' :: ("\"slug\":".toList ++ writeJsonString body.slug ++
    (match body with
      | .memory _ (some v) => ",\"value\":".toList ++ writeJsonString v
      | .memory _ none => ",\"value\":null".toList
      | .core profile => ",\"profile\":".toList ++ writeJsonString profile) ++ ['\x7d'])

def Body.toJsonBytes (body : Body) : List UInt8 :=
  utf8Bytes body.toJson

section Visitor
variable {F : Type} (float : List Char → Option F)

def strictNumber : Number (List Char) → Option (Number F)
  | .float lexeme => parseNumber float lexeme
  | .posInt n => some (.posInt n)
  | .negInt i h => some (.negInt i h)

mutual

/-- The visitor: an object with a repeated name is an error, at any depth. -/
def strictValue : Doc → Option (Value F)
  | .null => some .null
  | .bool b => some (.bool b)
  | .number n => (strictNumber float n).map .number
  | .string s => some (.string s)
  | .array items => (strictItems items).map .array
  | .object members => (strictMembers [] [] members).map .object

def strictItems : List Doc → Option (List (Value F))
  | [] => some []
  | item :: items =>
    match strictValue item with
    | none => none
    | some v => (strictItems items).map (v :: ·)

def strictMembers (seen : List String) (out : List (String × Value F)) :
    List (String × Doc) → Option (List (String × Value F))
  | [] => some out
  | (k, item) :: members =>
    if seen.contains k then none
    else
      match strictValue item with
      | none => none
      | some v => strictMembers (k :: seen) (insertKey k v out) members

end

/-- Bytes that are no text are an error wherever they stand. -/
def parseStrictJson (bytes : List UInt8) : Except BodyError (Value F) :=
  match String.fromUTF8? bytes.toByteArray with
  | none => .error .invalidJson
  | some text =>
    match (parseDocument (parseDoc 128) text.toList).bind (strictValue float) with
    | none => .error .invalidJson
    | some v => .ok v

end Visitor

def bodyOfMembers {F : Type} (obj : List (String × Value F)) : Except BodyError Body :=
  match obj.lookup "slug" with
  | none => .error (.invalidBody "missing `slug`")
  | some (.string slug) =>
    match validateSlug slug with
    | .error problem => .error (.invalidSlug problem)
    | .ok () =>
      if slug = CORE_SLUG then
        match obj.lookup "profile" with
        | some (.string profile) => .ok (.core profile)
        | some _ => .error (.invalidBody "`profile` is not a string")
        | none => .error (.invalidBody "core missing `profile`")
      else
        match obj.lookup "value" with
        | some (.string value) => .ok (.memory slug (some value))
        | some .null => .ok (.memory slug none)
        | some _ => .error (.invalidBody "`value` is not a string")
        | none => .error (.invalidBody "memory missing `value`")
  | some _ => .error (.invalidBody "`slug` is not a string")

def fromJsonBytes {F : Type} (float : List Char → Option F) (bytes : List UInt8) :
    Except BodyError Body :=
  match parseStrictJson float bytes with
  | .error e => .error e
  | .ok (.object obj) => bodyOfMembers obj
  | .ok _ => .error (.invalidBody "top-level not an object")

section RoundTrip

/-- The encoder writes the strings of the grammar. -/
theorem writeJsonChar_eq (c : Char) : writeJsonChar c = escapeChar c := by
  by_cases hspecial : c ∈ ['"', '\\', '\x08', '\x0c', '\n', '\r', '\t']
  · simp only [List.mem_cons, List.not_mem_nil, or_false] at hspecial
    rcases hspecial with rfl | rfl | rfl | rfl | rfl | rfl | rfl
    all_goals rfl
  · simp only [List.mem_cons, List.not_mem_nil, or_false, not_or] at hspecial
    obtain ⟨hquote, hslash, hb, hf, hn, hr, ht⟩ := hspecial
    rw [writeJsonChar, escapeChar, if_neg hquote, if_neg hslash, if_neg hb, if_neg hf, if_neg hn,
      if_neg hr, if_neg ht, if_neg hquote, if_neg hslash, if_neg hb, if_neg ht, if_neg hn,
      if_neg hf, if_neg hr]
    split
    · rename_i hcontrol
      have hall : ∀ n : Fin 32, hex4 n.val = ['0', '0', Hex.digitChar (Fin.ofNat 16 (n.val / 16)),
          Hex.digitChar (Fin.ofNat 16 (n.val % 16))] := by decide
      have hhex := hall ⟨c.toNat, hcontrol⟩
      dsimp only at hhex
      rw [hhex]
    · rfl

theorem writeJsonString_eq (s : String) : writeJsonString s = printString s := by
  rw [writeJsonString, printString, funext writeJsonChar_eq]

/-- The second member of a body, with the text of its value. -/
def Body.content : Body → String × List Char × Doc
  | .core profile => ("profile", printString profile, .string profile)
  | .memory _ (some v) => ("value", printString v, .string v)
  | .memory _ none => ("value", ['n', 'u', 'l', 'l'], .null)

def Body.members (body : Body) : List (String × List Char × Doc) :=
  [("slug", printString body.slug, .string body.slug), body.content]

theorem Body.toJson_eq (body : Body) :
    body.toJson = printObject (body.members.map fun m => printMember m.1 m.2.1) := by
  have hslug : "\"slug\":".toList = printString "slug" ++ [':'] := by decide
  have hvalue : ",\"value\":".toList = ',' :: (printString "value" ++ [':']) := by decide
  have hprofile : ",\"profile\":".toList = ',' :: (printString "profile" ++ [':']) := by decide
  have hnull : ",\"value\":null".toList =
      ',' :: (printString "value" ++ ':' :: ['n', 'u', 'l', 'l']) := by decide
  rw [Body.toJson.eq_def, Body.members, List.map_cons, List.map_singleton, printObject, printSeq,
    intercalate_cons_flatMap, List.flatMap_singleton, printMember, printMember, writeJsonString_eq,
    hslug]
  cases body with
  | core profile =>
    dsimp only [Body.content]
    rw [writeJsonString_eq, hprofile]
    simp only [List.append_assoc, List.cons_append, List.nil_append]
  | memory slug value =>
    cases value with
    | none =>
      dsimp only [Body.content]
      rw [hnull]
      simp only [List.append_assoc, List.cons_append, List.nil_append]
    | some v =>
      dsimp only [Body.content]
      rw [writeJsonString_eq, hvalue]
      simp only [List.append_assoc, List.cons_append, List.nil_append]

/-- The text of a body is read as its two members. -/
theorem Body.parse_toJson (body : Body) : parseDocument (parseDoc 128) body.toJson =
    some (.object (body.members.map fun m => (m.1, m.2.2))) := by
  rw [body.toJson_eq]
  apply parseDocument_of_reads
  apply reads_doc_object
  rw [Body.members]
  have hcontent : Reads (parseDoc 127) body.content.2.1 body.content.2.2 := by
    cases body with
    | core profile => exact reads_doc_string profile
    | memory slug value =>
      cases value with
      | none => exact reads_doc_null
      | some v => exact reads_doc_string v
  intro m hm
  rcases List.mem_cons.mp hm with rfl | hm
  · exact reads_doc_string _
  · rw [List.mem_singleton] at hm
    rw [hm]
    exact hcontent

/-- A body that is written: the slug is valid, and a memory does not have the core's. -/
def Body.Valid : Body → Prop
  | .core _ => True
  | .memory slug _ => validateSlug slug = .ok () ∧ slug ≠ CORE_SLUG

variable {F : Type} {float : List Char → Option F}

/-- The visitor keeps both members of a body, each under its name. -/
theorem strictValue_two {slug k : String} {item : Doc} {v : Value F} (hk : k ≠ "slug")
    (hv : strictValue float item = some v) :
    ∃ obj, strictValue float (.object [("slug", .string slug), (k, item)]) = some (.object obj) ∧
      obj.lookup "slug" = some (.string slug) ∧ obj.lookup k = some v := by
  refine ⟨insertKey k v (insertKey "slug" (.string slug) []), ?_, ?_, ?_⟩
  · have hnew : ["slug"].contains k = false := by
      rw [List.contains_eq_mem, decide_eq_false_iff_not, List.mem_singleton]
      exact hk
    rw [strictValue, strictMembers, if_neg (by decide), strictValue]
    dsimp only
    rw [strictMembers, hnew, if_neg Bool.false_ne_true, hv]
    rfl
  · rw [lookup_insertKey, if_neg hk.symm, lookup_insertKey, if_pos rfl]
  · rw [lookup_insertKey, if_pos rfl]

theorem fromJsonBytes_toJsonBytes {body : Body} (h : body.Valid) :
    fromJsonBytes float body.toJsonBytes = .ok body := by
  have htext : String.fromUTF8? body.toJsonBytes.toByteArray = some (String.ofList body.toJson) := by
    rw [fromUTF8_eq_some_iff, String.toList_ofList, Body.toJsonBytes]
  rw [fromJsonBytes, parseStrictJson, htext]
  dsimp only
  rw [String.toList_ofList, body.parse_toJson, Option.bind_some]
  cases body with
  | core profile =>
    obtain ⟨obj, hobj, hslug, hprofile⟩ := @strictValue_two F float CORE_SLUG "profile"
      (.string profile) (.string profile) (by decide) rfl
    have hvalid : validateSlug CORE_SLUG = .ok () := by
      rw [validateSlug, if_pos rfl]
    rw [Body.members, Body.content, List.map_cons, List.map_singleton]
    dsimp only [Body.slug]
    rw [hobj]
    dsimp only
    rw [bodyOfMembers, hslug]
    dsimp only
    rw [hvalid]
    dsimp only
    rw [if_pos rfl, hprofile]
  | memory slug value =>
    obtain ⟨hvalid, hne⟩ := h
    have hread : ∀ (item : Doc) (v : Value F), strictValue float item = some v →
        ∃ obj, strictValue float (.object [("slug", .string slug), ("value", item)]) =
          some (.object obj) ∧ obj.lookup "slug" = some (.string slug) ∧
          obj.lookup "value" = some v :=
      fun item v hv => strictValue_two (by decide) hv
    rw [Body.members, Body.content.eq_def, List.map_cons, List.map_singleton]
    dsimp only [Body.slug]
    cases value with
    | none =>
      obtain ⟨obj, hobj, hslug, hvalue⟩ := hread .null .null rfl
      dsimp only
      rw [hobj]
      dsimp only
      rw [bodyOfMembers, hslug]
      dsimp only
      rw [hvalid]
      dsimp only
      rw [if_neg hne, hvalue]
    | some v =>
      obtain ⟨obj, hobj, hslug, hvalue⟩ := hread (.string v) (.string v) rfl
      dsimp only
      rw [hobj]
      dsimp only
      rw [bodyOfMembers, hslug]
      dsimp only
      rw [hvalid]
      dsimp only
      rw [if_neg hne, hvalue]

end RoundTrip

section Duplicates
variable {F : Type} {float : List Char → Option F}

theorem strictItems_none {items : List Doc} {v : Doc} (hv : v ∈ items)
    (h : strictValue float v = none) : strictItems float items = none := by
  induction items with
  | nil => exact absurd hv List.not_mem_nil
  | cons item items ih =>
    rw [strictItems]
    rcases List.mem_cons.mp hv with rfl | hv
    · rw [h]
    · rw [ih hv]
      cases strictValue float item with
      | none => rfl
      | some w => rfl

theorem strictMembers_none {members : List (String × Doc)} {m : String × Doc} (hm : m ∈ members)
    (h : strictValue float m.2 = none) (seen : List String) (out : List (String × Value F)) :
    strictMembers float seen out members = none := by
  induction members generalizing seen out with
  | nil => exact absurd hm List.not_mem_nil
  | cons n members ih =>
    obtain ⟨k, item⟩ := n
    rw [strictMembers]
    split
    · rfl
    · rcases List.mem_cons.mp hm with rfl | hm
      · dsimp only at h
        rw [h]
      · cases strictValue float item with
        | none => rfl
        | some w => exact ih hm (k :: seen) (insertKey k w out)

/-- The names that the visitor passes are new, and differ from one another. -/
theorem strictMembers_some {members : List (String × Doc)} {seen : List String}
    {out obj : List (String × Value F)} (h : strictMembers float seen out members = some obj) :
    (members.map Prod.fst).Nodup ∧ ∀ k ∈ members.map Prod.fst, k ∉ seen := by
  induction members generalizing seen out with
  | nil => exact ⟨List.nodup_nil, nofun⟩
  | cons n members ih =>
    obtain ⟨k, item⟩ := n
    rw [strictMembers] at h
    split at h
    · cases h
    · rename_i hnew
      rw [List.contains_iff_mem] at hnew
      split at h
      · cases h
      · obtain ⟨hnodup, hfresh⟩ := ih h
        rw [List.map_cons, List.nodup_cons, List.forall_mem_cons]
        refine ⟨⟨?_, hnodup⟩, hnew, ?_⟩
        · intro hmem
          exact hfresh k hmem List.mem_cons_self
        · intro j hj hmem
          exact hfresh j hj (List.mem_cons_of_mem _ hmem)

/-- The visitor refuses what repeats a name anywhere. -/
theorem strictValue_repeats {doc : Doc} (h : Repeats doc) : strictValue float doc = none := by
  induction h with
  | @here members hdup =>
    rw [strictValue]
    cases hmembers : strictMembers float [] [] members with
    | none => rfl
    | some obj => exact absurd (strictMembers_some hmembers).1 hdup
  | item hv _ ih => rw [strictValue, strictItems_none hv ih, Option.map_none]
  | member hm _ ih => rw [strictValue, strictMembers_none hm ih, Option.map_none]

/-- A document that repeats a name is refused, whatever else it holds. -/
theorem fromJsonBytes_repeats {text : List Char} {doc : Doc} (hdoc : IsDocument text doc)
    (h : Repeats doc) : fromJsonBytes float (utf8Bytes text) = .error .invalidJson := by
  have htext : String.fromUTF8? (utf8Bytes text).toByteArray = some (String.ofList text) := by
    rw [fromUTF8_eq_some_iff, String.toList_ofList]
  have hnone : (parseDocument (parseDoc 128) text).bind (strictValue float) = none := by
    rcases hdoc.parse 128 with hread | hread
    · rw [hread, Option.bind_none]
    · rw [hread, Option.bind_some]
      exact strictValue_repeats h
  rw [fromJsonBytes, parseStrictJson, htext]
  dsimp only
  rw [String.toList_ofList, hnone]

/-- A body is read back as it was written, and no document that repeats a name is read. -/
theorem fromJsonBytes_faithful (float : List Char → Option F) :
    (∀ body : Body, body.Valid → fromJsonBytes float body.toJsonBytes = .ok body) ∧
    ∀ text doc, IsDocument text doc → Repeats doc →
      fromJsonBytes float (utf8Bytes text) = .error .invalidJson :=
  ⟨fun _ h => fromJsonBytes_toJsonBytes h, fun _ _ hdoc h => fromJsonBytes_repeats hdoc h⟩

def bare (text : List Char) (value : α) : Piece α :=
  ⟨[], text, [], value, nofun, nofun⟩

/-- An escape does not hide a name: `{"a":{"b":null,"\u0062":null}}` is refused. -/
theorem fromJsonBytes_faithful_escaped (float : List Char → Option F) :
    fromJsonBytes float (Body.memory "mem/a" (some "\"\\\x00\x1f")).toJsonBytes =
      .ok (Body.memory "mem/a" (some "\"\\\x00\x1f")) ∧
    fromJsonBytes float (utf8Bytes "\x7b\"a\":\x7b\"b\":null,\"\\u0062\":null\x7d\x7d".toList) =
      .error .invalidJson := by
  have ha : Literal ['"', 'a', '"'] "a" :=
    .quoted (.plain (by decide) (by decide) (by decide) .nil)
  have hb : Literal ['"', 'b', '"'] "b" :=
    .quoted (.plain (by decide) (by decide) (by decide) .nil)
  have hunit : UnitText ['0', '0', '6', '2'] 98 :=
    @UnitText.digits '0' 0 '0' 0 '6' 6 '2' 2 rfl rfl rfl rfl
  have hescape : EscapeText ['u', '0', '0', '6', '2'] 'b' := .unit hunit (by decide)
  have hescaped : Literal ['"', '\\', 'u', '0', '0', '6', '2', '"'] "b" :=
    .quoted (.escape hescape .nil)
  have hinner := Denotes.object (bare _ "b", bare _ .null) [(bare _ "b", bare _ .null)]
    (List.forall_mem_cons.mpr ⟨hb, List.forall_mem_singleton.mpr hescaped⟩)
    (List.forall_mem_cons.mpr ⟨.null, List.forall_mem_singleton.mpr .null⟩)
  have houter := Denotes.object (bare _ "a", bare _ _) [] (List.forall_mem_singleton.mpr ha)
    (List.forall_mem_singleton.mpr hinner)
  have hrepeats : Repeats (.object [("a", .object [("b", .null), ("b", .null)])]) :=
    .member List.mem_cons_self (.here (by decide))
  exact ⟨(fromJsonBytes_faithful float).1 _ ⟨rfl, by decide⟩,
    (fromJsonBytes_faithful float).2 _ _ (.value (bare _ _) houter) hrepeats⟩

end Duplicates

end Buzz.Engram
