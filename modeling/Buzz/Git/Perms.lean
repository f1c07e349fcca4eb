import Buzz.Lib.Fallible

namespace Buzz.Git.Perms
set_option autoImplicit true

/-- The roles of a channel, which are also the roles of its repositories. -/
inductive MemberRole where
  | owner
  | admin
  | member
  | guest
  | bot
deriving DecidableEq

namespace MemberRole

def asStr : MemberRole → String
  | owner => "owner"
  | admin => "admin"
  | member => "member"
  | guest => "guest"
  | bot => "bot"

def permissionLevel : MemberRole → Nat
  | owner => 4
  | admin => 3
  | member => 2
  | guest => 1
  | bot => 0

def hasAtLeast (role required : MemberRole) : Bool :=
  required.permissionLevel ≤ role.permissionLevel

theorem permissionLevel_injective {r r' : MemberRole} (h : r.permissionLevel = r'.permissionLevel) :
    r = r' := by
  cases r <;> cases r' <;> first | rfl | cases h

@[simp] theorem hasAtLeast_iff {role required : MemberRole} :
    role.hasAtLeast required = true ↔ required.permissionLevel ≤ role.permissionLevel :=
  decide_eq_true_iff

end MemberRole

def MAX_PATTERN_LENGTH : Nat := 256
def MAX_WILDCARDS_PER_PATTERN : Nat := 3

inductive PatternSegment where
  | literal (lit : String)
  | wildcard
  | recursiveWildcard
deriving DecidableEq

inductive PatternError where
  | empty
  | tooLong
  | missingRefsPrefix
  | invalidSegment (segment : String)
  | tooManyWildcards
deriving DecidableEq

/-- The `/`-separated parts of a pattern or of a ref name. -/
def splitSlash (s : String) : List (List Char) :=
  s.toList.splitOn '/'

/-- A validated pattern. Only its last segment can be `**`. -/
structure RefPattern where
  raw : String
  segments : List PatternSegment
  recursive_last : .recursiveWildcard ∉ segments.dropLast
deriving DecidableEq

def isLiteralChar (c : Char) : Bool :=
  c.isAlphanum || c == '.' || c == '_' || c == '-'

/-- The loop of `parse`, after `count` wildcards. -/
def parseSegments (count : Nat) : List (List Char) → Except PatternError (List PatternSegment)
  | [] => .ok []
  | part :: rest =>
    if part = ['*', '*'] then
      if rest ≠ [] then .error (.invalidSegment "** must be the last segment")
      else if MAX_WILDCARDS_PER_PATTERN < count + 1 then .error .tooManyWildcards
      else (parseSegments (count + 1) rest).map (.recursiveWildcard :: ·)
    else if part = ['*'] then
      if MAX_WILDCARDS_PER_PATTERN < count + 1 then .error .tooManyWildcards
      else (parseSegments (count + 1) rest).map (.wildcard :: ·)
    else if part = [] then .error (.invalidSegment "")
    else if part.contains '*' || part.contains '?' || part.contains '[' || part.contains ']' then
      .error (.invalidSegment (String.ofList part))
    else if !part.all isLiteralChar then .error (.invalidSegment (String.ofList part))
    else (parseSegments count rest).map (.literal (String.ofList part) :: ·)

theorem parseSegments_cons {segments : List PatternSegment}
    (h : parseSegments count (part :: rest) = .ok segments) :
    ∃ segment count' tail, segments = segment :: tail ∧ parseSegments count' rest = .ok tail ∧
      (segment = .recursiveWildcard → rest = []) := by
  unfold parseSegments at h
  split at h
  · split at h
    · cases h
    · split at h
      · cases h
      · rename_i hrest _
        obtain ⟨tail, htail, rfl⟩ := ok_of_map h
        exact ⟨_, _, tail, rfl, htail, fun _ => not_not.mp hrest⟩
  · split at h
    · split at h
      · cases h
      · obtain ⟨tail, htail, rfl⟩ := ok_of_map h
        exact ⟨_, _, tail, rfl, htail, nofun⟩
    · split at h
      · cases h
      · split at h
        · cases h
        · split at h
          · cases h
          · obtain ⟨tail, htail, rfl⟩ := ok_of_map h
            exact ⟨_, _, tail, rfl, htail, nofun⟩

theorem parseSegments_recursive_last {parts : List (List Char)} {segments : List PatternSegment}
    (h : parseSegments count parts = .ok segments) :
    .recursiveWildcard ∉ segments.dropLast := by
  induction parts generalizing count segments with
  | nil =>
    cases h
    exact List.not_mem_nil
  | cons part rest ih =>
    obtain ⟨segment, count', tail, rfl, htail, hlast⟩ := parseSegments_cons h
    cases tail with
    | nil => exact List.not_mem_nil
    | cons next tail =>
      rw [List.dropLast_cons_cons, List.mem_cons, not_or]
      refine ⟨?_, ih htail⟩
      intro hsegment
      rw [hlast hsegment.symm] at htail
      cases htail

namespace RefPattern

def parse (pattern : String) : Except PatternError RefPattern :=
  if pattern = "" then .error .empty
  else if MAX_PATTERN_LENGTH < pattern.utf8ByteSize then .error .tooLong
  else if ¬"refs/".toList.isPrefixOf pattern.toList then .error .missingRefsPrefix
  else
    match h : parseSegments 0 (splitSlash pattern) with
    | .error e => .error e
    | .ok segments => .ok ⟨pattern, segments, parseSegments_recursive_last h⟩

end RefPattern

/-- Segment by segment, until one does not match. The `none` is the `unreachable!` arm. -/
def segmentsMatch : List (PatternSegment × List Char) → Option Bool
  | [] => some true
  | (.wildcard, _) :: rest => segmentsMatch rest
  | (.literal lit, segment) :: rest =>
    if lit.toList = segment then segmentsMatch rest else some false
  | (.recursiveWildcard, _) :: _ => none

theorem segmentsMatch_isSome {pairs : List (PatternSegment × List Char)}
    (h : ∀ x ∈ pairs, x.1 ≠ .recursiveWildcard) : (segmentsMatch pairs).isSome = true := by
  induction pairs with
  | nil => rfl
  | cons x rest ih =>
    have hrest := ih fun y hy => h y (List.mem_cons_of_mem _ hy)
    obtain ⟨segment, part⟩ := x
    cases segment with
    | wildcard => exact hrest
    | literal lit =>
      rw [segmentsMatch]
      split
      · exact hrest
      · rfl
    | recursiveWildcard => exact (h _ List.mem_cons_self rfl).elim

namespace RefPattern

/-- `matches`, where a panic is `none`. -/
def tryMatches (p : RefPattern) (refName : String) : Option Bool :=
  let refSegments := splitSlash refName
  if p.segments.getLast? = some .recursiveWildcard then
    let prefixLen := p.segments.length - 1
    if refSegments.length ≤ prefixLen then some false
    else segmentsMatch ((p.segments.take prefixLen).zip (refSegments.take prefixLen))
  else if refSegments.length ≠ p.segments.length then some false
  else segmentsMatch (p.segments.zip refSegments)

theorem not_recursive_of_mem_take (p : RefPattern) {segment : PatternSegment}
    (h : segment ∈ p.segments.take (p.segments.length - 1)) : segment ≠ .recursiveWildcard := by
  rintro rfl
  rw [← List.dropLast_eq_take] at h
  exact p.recursive_last h

theorem not_recursive_of_mem (p : RefPattern) {segment : PatternSegment}
    (hlast : p.segments.getLast? ≠ some .recursiveWildcard) (h : segment ∈ p.segments) :
    segment ≠ .recursiveWildcard := by
  rintro rfl
  have hne : p.segments ≠ [] := List.ne_nil_of_mem h
  rw [← List.dropLast_append_getLast hne, List.mem_append, List.mem_singleton] at h
  rcases h with h | h
  · exact p.recursive_last h
  · rw [List.getLast?_eq_some_getLast hne, ← h] at hlast
    exact hlast rfl

theorem tryMatches_isSome (p : RefPattern) (refName : String) :
    (p.tryMatches refName).isSome = true := by
  unfold tryMatches
  dsimp only
  split
  · split
    · rfl
    · apply segmentsMatch_isSome
      intro x hx
      exact p.not_recursive_of_mem_take (List.of_mem_zip hx).1
  · rename_i hlast
    split
    · rfl
    · apply segmentsMatch_isSome
      intro x hx
      exact p.not_recursive_of_mem hlast (List.of_mem_zip hx).1

/-- The pattern matches the ref name. -/
def «matches» (p : RefPattern) (refName : String) : Bool :=
  (p.tryMatches refName).get (p.tryMatches_isSome refName)

end RefPattern

inductive UpdateKind where
  | create
  | fastForward
  | nonFastForward
  | delete
deriving DecidableEq

structure RefUpdate where
  refName : String
  kind : UpdateKind
  oldOid : String
  newOid : String
deriving DecidableEq

/-- A parsed `buzz-protect` tag. -/
structure ProtectionRule where
  pattern : RefPattern
  pushRole : Option MemberRole
  noForcePush : Bool
  noDelete : Bool
  requirePatch : Bool
deriving DecidableEq

def isBranch (refName : String) : Bool :=
  "refs/heads/".toList.isPrefixOf refName.toList

def isTag (refName : String) : Bool :=
  "refs/tags/".toList.isPrefixOf refName.toList

def defaultMinRole (refName : String) : UpdateKind → MemberRole
  | .create => if isBranch refName || isTag refName then .member else .admin
  | .fastForward => if isBranch refName then .member else if isTag refName then .admin else .admin
  | .nonFastForward => .admin
  | .delete => .admin

/-- The union of the rules that match a ref. -/
structure EffectiveRules where
  pushRole : Option MemberRole
  noForcePush : Bool
  noDelete : Bool
  requirePatch : Bool
  hasExplicitMatch : Bool
deriving DecidableEq

/-- The stricter of a role and what was required so far. -/
def strictest (pushRole : Option MemberRole) (role : MemberRole) : MemberRole :=
  match pushRole with
  | none => role
  | some existing => if existing.permissionLevel < role.permissionLevel then role else existing

namespace EffectiveRules

def none : EffectiveRules :=
  ⟨.none, false, false, false, false⟩

/-- The body of the loop of `for_ref`. -/
def union (refName : String) (e : EffectiveRules) (rule : ProtectionRule) : EffectiveRules :=
  if !rule.pattern.matches refName then e
  else
    { pushRole :=
        match rule.pushRole with
        | .some role => .some (strictest e.pushRole role)
        | .none => e.pushRole
      noForcePush := e.noForcePush || rule.noForcePush
      noDelete := e.noDelete || rule.noDelete
      requirePatch := e.requirePatch || rule.requirePatch
      hasExplicitMatch := true }

def forRef (refName : String) (rules : List ProtectionRule) : EffectiveRules :=
  rules.foldl (union refName) none

end EffectiveRules

structure Denial where
  refName : String
  reason : String
deriving DecidableEq

/-- The role that a push needs when a rule matches: the higher of the explicit role and the
built-in one. -/
def minRole (pushRole : Option MemberRole) (defaultRole : MemberRole) : MemberRole :=
  match pushRole with
  | some explicit =>
    if defaultRole.permissionLevel ≤ explicit.permissionLevel then explicit else defaultRole
  | none => defaultRole

def evaluateRefUpdate (update : RefUpdate) (role : MemberRole) (rules : List ProtectionRule) :
    Except Denial Unit :=
  let effective := EffectiveRules.forRef update.refName rules
  let defaultRole := defaultMinRole update.refName update.kind
  if !effective.hasExplicitMatch then
    if !role.hasAtLeast defaultRole then
      .error ⟨update.refName, "requires " ++ defaultRole.asStr ++ " role (you have " ++ role.asStr ++
        "), using built-in defaults"⟩
    else .ok ()
  else if effective.requirePatch then
    .error ⟨update.refName, "direct push denied: require-patch is set, submit a NIP-34 patch"⟩
  else
    let required := minRole effective.pushRole defaultRole
    if !role.hasAtLeast required then
      .error ⟨update.refName, "requires " ++ required.asStr ++ " role (you have " ++ role.asStr ++ ")"⟩
    else if effective.noForcePush && update.kind == .nonFastForward then
      .error ⟨update.refName, "non-fast-forward update denied: no-force-push is set"⟩
    else if effective.noDelete && update.kind == .delete then
      .error ⟨update.refName, "ref deletion denied: no-delete is set"⟩
    else .ok ()

/-- The denial of an update, if there is one. -/
def denial (update : RefUpdate) (role : MemberRole) (rules : List ProtectionRule) : Option Denial :=
  match evaluateRefUpdate update role rules with
  | .ok _ => none
  | .error d => some d

def evaluatePush (updates : List RefUpdate) (role : MemberRole) (rules : List ProtectionRule) :
    Except (List Denial) Unit :=
  let denials := updates.filterMap fun update => denial update role rules
  if denials.isEmpty then .ok () else .error denials

end Buzz.Git.Perms
