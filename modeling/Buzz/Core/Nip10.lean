import Buzz.Core.Nostr

namespace Buzz
set_option autoImplicit true

/-- The ids of an event's valid `root` and `reply` markers. -/
structure ThreadMarkers where
  root : Option String
  reply : Option String
deriving DecidableEq

namespace ThreadMarkers

/-- The `(root, parent)` of a reply. Without a `reply` marker an event is top-level. -/
def resolve (m : ThreadMarkers) : Option (String × String) :=
  match m.root, m.reply with
  | some root, some reply => some (root, reply)
  | none, some reply => some (reply, reply)
  | some _, none => none
  | none, none => none

end ThreadMarkers

/-- Exactly 64 hexadecimal characters. -/
def isEventIdHex (id : String) : Bool :=
  id.toList.length == 64 && id.toList.all fun c => (Hex.digitVal c).isSome

/-- One tag of `parse_thread_markers`: the last valid marker of each kind wins. -/
def markTag (m : ThreadMarkers) (tag : Tag) : ThreadMarkers :=
  match tag.kind == "e", tag.rest with
  | true, id :: _ :: marker :: _ =>
    if isEventIdHex id then
      if marker == "root" then { m with root := some id }
      else if marker == "reply" then { m with reply := some id }
      else m
    else m
  | _, _ => m

def parseThreadMarkers (tags : List Tag) : ThreadMarkers :=
  tags.foldl markTag ⟨none, none⟩

end Buzz
