import Buzz.Lib.Uuid

namespace Buzz
set_option autoImplicit true

abbrev EventId := HexId 64
abbrev PublicKey := HexId 64

instance : LawfulBEq EventId :=
  inferInstance

/-- An event kind is a `u16`; comparisons with the kind tables go through its value. -/
abbrev Kind := UInt16

/-- The server-resolved community that owns a connection or a row. -/
structure CommunityId where
  uuid : Uuid
deriving DecidableEq

/-- A tag is a non-empty list of strings: its name and the parts after it. -/
structure Tag where
  kind : String
  rest : List String
deriving DecidableEq

def Tag.asSlice (t : Tag) : List String :=
  t.kind :: t.rest

def Tag.content (t : Tag) : Option String :=
  t.rest.head?

structure Event where
  id : EventId
  pubkey : PublicKey
  createdAt : UInt64
  kind : Kind
  tags : List Tag
deriving DecidableEq

/-- A tag name of one letter, the only names a filter can constrain. -/
structure SingleLetterTag where
  letter : Char
  isLetter : letter.isAlpha = true
deriving DecidableEq

namespace SingleLetterTag

def toString (t : SingleLetterTag) : String :=
  String.ofList [t.letter]

def h : SingleLetterTag := ⟨'h', rfl⟩
def p : SingleLetterTag := ⟨'p', rfl⟩
def d : SingleLetterTag := ⟨'d', rfl⟩
def e : SingleLetterTag := ⟨'e', rfl⟩

theorem toString_injective : Function.Injective toString := by
  intro s t hst
  have hl : [s.letter] = [t.letter] := String.ofList_injective hst
  cases s
  cases t
  cases hl
  rfl

end SingleLetterTag

/-- A set of filter values. Only its members and its size are observable. -/
structure ValueSet (α : Type) where
  elems : List α
  nodup : elems.Nodup

namespace ValueSet

def ofList [DecidableEq α] (l : List α) : ValueSet α :=
  ⟨l.dedup, l.nodup_dedup⟩

def isEmpty (s : ValueSet α) : Bool :=
  s.elems.isEmpty

def len (s : ValueSet α) : Nat :=
  s.elems.length

end ValueSet

abbrev GenericTags := AList (fun _ : SingleLetterTag => ValueSet String)

/-- A NIP-01 filter. -/
structure Filter where
  ids : Option (ValueSet EventId)
  authors : Option (ValueSet PublicKey)
  kinds : Option (ValueSet Kind)
  search : Option String
  since : Option UInt64
  until_ : Option UInt64
  limit : Option UInt64
  genericTags : GenericTags

/-- The filter without constraints. -/
def Filter.new : Filter :=
  ⟨none, none, none, none, none, none, none, ∅⟩

/-- A Nostr event with the channel the relay stored it under. -/
structure StoredEvent where
  event : Event
  channelId : Option Uuid
deriving DecidableEq

end Buzz
