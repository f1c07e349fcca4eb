import Buzz.Core.Nostr

namespace Buzz
set_option autoImplicit true

def KIND_GIFT_WRAP : Nat := 1059
def KIND_NIP43_MEMBERSHIP_LIST : Nat := 13534
def KIND_AUTH : Nat := 22242
def KIND_AGENT_OBSERVER_FRAME : Nat := 24200
def KIND_AGENT_ENGRAM : Nat := 30174
def KIND_PERSONA : Nat := 30175
def KIND_TEAM_CATALOG : Nat := 30178
def KIND_PRIVATE_MANAGED_AGENT : Nat := 30179
def KIND_EVENT_REMINDER : Nat := 30300
def KIND_PUSH_LEASE : Nat := 30350
def KIND_DM_VISIBILITY : Nat := 30622
def KIND_MEMBER_ADDED_NOTIFICATION : Nat := 44100
def KIND_MEMBER_REMOVED_NOTIFICATION : Nat := 44101
def KIND_AGENT_TURN_METRIC : Nat := 44200

def PARAM_REPLACEABLE_KIND_MIN : Nat := 30000
def PARAM_REPLACEABLE_KIND_MAX : Nat := 39999
def EPHEMERAL_KIND_MIN : Nat := 20000
def EPHEMERAL_KIND_MAX : Nat := 29999

/-- Kinds whose stored events are readable only by their author. -/
def AUTHOR_ONLY_KINDS : List Nat :=
  [KIND_EVENT_REMINDER, KIND_PUSH_LEASE, KIND_PRIVATE_MANAGED_AGENT]

/-- Kinds whose events are readable only by the owner named in their `#p` tag. -/
def RESULT_GATED_KINDS : List Nat :=
  [KIND_DM_VISIBILITY, KIND_AGENT_TURN_METRIC]

/-- Kinds a filter may name only together with the reader's own `#p`. -/
def P_GATED_KINDS : List Nat :=
  [KIND_AGENT_OBSERVER_FRAME, KIND_MEMBER_ADDED_NOTIFICATION, KIND_MEMBER_REMOVED_NOTIFICATION,
    KIND_GIFT_WRAP, KIND_DM_VISIBILITY, KIND_AGENT_TURN_METRIC]

/-- Kinds that are author-only unless the event carries `["shared", "true"]`. -/
def SHARED_GATED_KINDS : List Nat :=
  [KIND_PERSONA, KIND_TEAM_CATALOG]

def isEphemeral (kind : Nat) : Bool :=
  decide (EPHEMERAL_KIND_MIN ≤ kind) && decide (kind ≤ EPHEMERAL_KIND_MAX)

def isParameterizedReplaceable (kind : Nat) : Bool :=
  decide (PARAM_REPLACEABLE_KIND_MIN ≤ kind) && decide (kind ≤ PARAM_REPLACEABLE_KIND_MAX)

def isSharedGatedKind (kind : Nat) : Bool :=
  SHARED_GATED_KINDS.contains kind

/-- The loop of `event_is_shared` over the remaining tags, with the count so far. -/
def eventIsSharedFrom (count : Nat) : List Tag → Bool
  | [] => count == 1
  | tag :: tags =>
    match tag.kind == "shared", tag.rest with
    | true, [value] => if value == "true" then eventIsSharedFrom (count + 1) tags else false
    | true, _ => false
    | false, _ => eventIsSharedFrom count tags

/-- The event carries exactly one `["shared", "true"]` tag and no other `shared` tag. -/
def eventIsShared (event : Event) : Bool :=
  eventIsSharedFrom 0 event.tags

def isUnsharedGatedEvent (event : Event) (requester : PublicKey) : Bool :=
  if !isSharedGatedKind event.kind.toNat then false
  else if event.pubkey == requester then false
  else !eventIsShared event

theorem eventIsSharedFrom_mem (h : eventIsSharedFrom count tags = true) (hc : count ≠ 1) :
    (⟨"shared", ["true"]⟩ : Tag) ∈ tags := by
  induction tags generalizing count with
  | nil => simp [eventIsSharedFrom, hc] at h
  | cons tag tags ih =>
    obtain ⟨kind, rest⟩ := tag
    by_cases hk : kind = "shared"
    · subst hk
      match rest, h with
      | [], h => simp [eventIsSharedFrom] at h
      | [value], h =>
        by_cases hv : value = "true"
        · rw [hv]
          exact List.mem_cons_self
        · simp [eventIsSharedFrom, hv] at h
      | _ :: _ :: _, h => simp [eventIsSharedFrom] at h
    · have hb : (kind == "shared") = false := beq_eq_false_iff_ne.mpr hk
      have ht : eventIsSharedFrom count tags = true := by
        simpa only [eventIsSharedFrom, hb] using h
      exact List.mem_cons_of_mem _ (ih ht hc)

/-- A shared event carries the tag that the SQL visibility clause looks for. -/
theorem eventIsShared_mem (h : eventIsShared event = true) :
    (⟨"shared", ["true"]⟩ : Tag) ∈ event.tags :=
  eventIsSharedFrom_mem h Nat.zero_ne_one

end Buzz
