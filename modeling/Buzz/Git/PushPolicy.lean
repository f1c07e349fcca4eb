import Buzz.Git.Perms

namespace Buzz.Git.Perms
set_option autoImplicit true

/-- What the constraints of a rule, or of several, let a role do. -/
structure Permits (update : RefUpdate) (role : MemberRole) (pushRole : Option MemberRole)
    (noForcePush noDelete requirePatch : Bool) : Prop where
  patch : requirePatch = false
  push : ∀ required ∈ pushRole, required.permissionLevel ≤ role.permissionLevel
  force : noForcePush = true → update.kind ≠ .nonFastForward
  delete : noDelete = true → update.kind ≠ .delete

def ProtectionRule.Permits (rule : ProtectionRule) (update : RefUpdate) (role : MemberRole) : Prop :=
  Perms.Permits update role rule.pushRole rule.noForcePush rule.noDelete rule.requirePatch

def EffectiveRules.Permits (e : EffectiveRules) (update : RefUpdate) (role : MemberRole) : Prop :=
  Perms.Permits update role e.pushRole e.noForcePush e.noDelete e.requirePatch

/-- A push is allowed when the role has what the update needs by default and no rule of the set
that matches the ref forbids it. -/
structure Allowed (update : RefUpdate) (role : MemberRole) (rules : Set ProtectionRule) : Prop where
  default : (defaultMinRole update.refName update.kind).permissionLevel ≤ role.permissionLevel
  rules : ∀ rule ∈ rules, rule.pattern.matches update.refName = true → rule.Permits update role

variable {update : RefUpdate} {role role' : MemberRole}

theorem Permits.mono {pushRole : Option MemberRole}
    (h : Permits update role pushRole noForcePush noDelete requirePatch)
    (hrole : role.permissionLevel ≤ role'.permissionLevel) :
    Permits update role' pushRole noForcePush noDelete requirePatch :=
  ⟨h.patch, fun required hr => (h.push required hr).trans hrole, h.force, h.delete⟩

theorem Allowed.anti {R R' : Set ProtectionRule} (h : Allowed update role R') (hsub : R ⊆ R') :
    Allowed update role R :=
  ⟨h.default, fun rule hr => h.rules rule (hsub hr)⟩

theorem Allowed.mono {R : Set ProtectionRule} (h : Allowed update role R)
    (hrole : role.permissionLevel ≤ role'.permissionLevel) : Allowed update role' R := by
  refine ⟨h.default.trans hrole, ?_⟩
  intro rule hr hmatches
  exact Permits.mono (h.rules rule hr hmatches) hrole

/-- The level that was required so far. -/
def requiredLevel (pushRole : Option MemberRole) : Nat :=
  match pushRole with
  | none => 0
  | some role => role.permissionLevel

theorem permissionLevel_strictest (pushRole : Option MemberRole) (role : MemberRole) :
    (strictest pushRole role).permissionLevel =
      max (requiredLevel pushRole) role.permissionLevel := by
  cases pushRole with
  | none => exact (Nat.zero_max _).symm
  | some existing =>
    dsimp only [strictest, requiredLevel]
    split
    · omega
    · omega

theorem strictest_right_comm (pushRole : Option MemberRole) (a b : MemberRole) :
    strictest (some (strictest pushRole a)) b = strictest (some (strictest pushRole b)) a := by
  apply MemberRole.permissionLevel_injective
  simp only [permissionLevel_strictest, requiredLevel]
  omega

theorem forall_mem_pushRole {pushRole : Option MemberRole} :
    (∀ required ∈ pushRole, required.permissionLevel ≤ n) ↔ requiredLevel pushRole ≤ n := by
  cases pushRole with
  | none => exact ⟨fun _ => Nat.zero_le n, fun _ => nofun⟩
  | some role =>
    constructor
    · intro h
      exact h role rfl
    · rintro h required hr
      cases hr
      exact h

namespace EffectiveRules

theorem union_of_matches (e : EffectiveRules) {rule : ProtectionRule}
    (h : rule.pattern.matches refName = true) :
    e.union refName rule =
      { pushRole :=
          match rule.pushRole with
          | .some role => .some (strictest e.pushRole role)
          | .none => e.pushRole
        noForcePush := e.noForcePush || rule.noForcePush
        noDelete := e.noDelete || rule.noDelete
        requirePatch := e.requirePatch || rule.requirePatch
        hasExplicitMatch := true } := by
  rw [union, h]
  rfl

theorem union_of_not_matches (e : EffectiveRules) {rule : ProtectionRule}
    (h : ¬rule.pattern.matches refName = true) : e.union refName rule = e := by
  rw [union, Bool.eq_false_of_not_eq_true h]
  rfl

/-- The rules are taken in any order. -/
instance union_right_comm (refName : String) : RightCommutative (union refName) where
  right_comm := by
    intro e a b
    by_cases ha : a.pattern.matches refName = true
    · by_cases hb : b.pattern.matches refName = true
      · simp only [union_of_matches _ ha, union_of_matches _ hb]
        congr 1
        · cases a.pushRole with
          | none => rfl
          | some ra =>
            cases b.pushRole with
            | none => rfl
            | some rb => exact congrArg some (strictest_right_comm e.pushRole ra rb)
        · exact Bool.or_right_comm _ _ _
        · exact Bool.or_right_comm _ _ _
        · exact Bool.or_right_comm _ _ _
      · rw [union_of_not_matches _ hb, union_of_not_matches _ hb]
    · rw [union_of_not_matches _ ha, union_of_not_matches _ ha]

theorem forRef_perm {rules rules' : List ProtectionRule} (h : rules.Perm rules') :
    forRef refName rules = forRef refName rules' :=
  h.foldl_eq none

theorem requiredLevel_union (e : EffectiveRules) {rule : ProtectionRule}
    (h : rule.pattern.matches refName = true) :
    requiredLevel (e.union refName rule).pushRole =
      max (requiredLevel e.pushRole) (requiredLevel rule.pushRole) := by
  rw [union_of_matches e h]
  cases rule.pushRole with
  | none => exact (Nat.max_zero _).symm
  | some role => exact permissionLevel_strictest e.pushRole role

theorem permits_none : none.Permits update role :=
  ⟨rfl, nofun, nofun, nofun⟩

theorem permits_union (e : EffectiveRules) (rule : ProtectionRule) :
    (e.union update.refName rule).Permits update role ↔ e.Permits update role ∧
      (rule.pattern.matches update.refName = true → rule.Permits update role) := by
  by_cases h : rule.pattern.matches update.refName = true
  · have hlevel := requiredLevel_union e h
    constructor
    · intro hp
      have hpush := forall_mem_pushRole.mp hp.push
      rw [hlevel, Nat.max_le] at hpush
      rw [union_of_matches e h] at hp
      obtain ⟨hpatch, _, hforce, hdelete⟩ := hp
      simp only [Bool.or_eq_false_iff, Bool.or_eq_true, or_imp] at hpatch hforce hdelete
      exact ⟨⟨hpatch.1, forall_mem_pushRole.mpr hpush.1, hforce.1, hdelete.1⟩,
        fun _ => ⟨hpatch.2, forall_mem_pushRole.mpr hpush.2, hforce.2, hdelete.2⟩⟩
    · rintro ⟨he, hrule⟩
      have hr := hrule h
      refine ⟨?_, ?_, ?_, ?_⟩
      · rw [union_of_matches e h]
        exact Bool.or_eq_false_iff.mpr ⟨he.patch, hr.patch⟩
      · rw [forall_mem_pushRole, hlevel, Nat.max_le]
        exact ⟨forall_mem_pushRole.mp he.push, forall_mem_pushRole.mp hr.push⟩
      · rw [union_of_matches e h, Bool.or_eq_true]
        exact fun hor => hor.elim he.force hr.force
      · rw [union_of_matches e h, Bool.or_eq_true]
        exact fun hor => hor.elim he.delete hr.delete
  · rw [union_of_not_matches e h]
    exact (and_iff_left fun hm => (h hm).elim).symm

theorem permits_foldl (e : EffectiveRules) (rules : List ProtectionRule) :
    (rules.foldl (union update.refName) e).Permits update role ↔ e.Permits update role ∧
      ∀ rule ∈ rules, rule.pattern.matches update.refName = true → rule.Permits update role := by
  induction rules generalizing e with
  | nil => simp
  | cons rule rules ih =>
    rw [List.foldl_cons, ih, permits_union, and_assoc, List.forall_mem_cons]

theorem permits_forRef (rules : List ProtectionRule) :
    (forRef update.refName rules).Permits update role ↔
      ∀ rule ∈ rules, rule.pattern.matches update.refName = true → rule.Permits update role := by
  rw [forRef, permits_foldl]
  exact and_iff_right permits_none

/-- Without an explicit match nothing was added. -/
theorem foldl_eq_self {e : EffectiveRules} (rules : List ProtectionRule)
    (h : (rules.foldl (union refName) e).hasExplicitMatch = false) :
    rules.foldl (union refName) e = e ∧ e.hasExplicitMatch = false := by
  induction rules generalizing e with
  | nil => exact ⟨rfl, h⟩
  | cons rule rules ih =>
    obtain ⟨hrest, hmatch⟩ := ih h
    by_cases hm : rule.pattern.matches refName = true
    · rw [union_of_matches e hm] at hmatch
      cases hmatch
    · rw [union_of_not_matches e hm] at hrest hmatch
      rw [List.foldl_cons, union_of_not_matches e hm]
      exact ⟨hrest, hmatch⟩

end EffectiveRules

theorem permissionLevel_minRole (pushRole : Option MemberRole) (defaultRole : MemberRole) :
    (minRole pushRole defaultRole).permissionLevel =
      max (requiredLevel pushRole) defaultRole.permissionLevel := by
  cases pushRole with
  | none => exact (Nat.zero_max _).symm
  | some explicit =>
    dsimp only [minRole, requiredLevel]
    split
    · omega
    · omega

theorem allowed_iff {rules : List ProtectionRule} :
    Allowed update role { rule | rule ∈ rules } ↔
      (defaultMinRole update.refName update.kind).permissionLevel ≤ role.permissionLevel ∧
        (EffectiveRules.forRef update.refName rules).Permits update role := by
  rw [EffectiveRules.permits_forRef]
  exact ⟨fun h => ⟨h.default, h.rules⟩, fun h => ⟨h.1, h.2⟩⟩

theorem EffectiveRules.permits_iff (e : EffectiveRules) :
    e.Permits update role ↔ e.requirePatch = false ∧
      requiredLevel e.pushRole ≤ role.permissionLevel ∧
      (e.noForcePush && update.kind == .nonFastForward) = false ∧
      (e.noDelete && update.kind == .delete) = false := by
  have hflag (b : Bool) (kind : UpdateKind) :
      (b && update.kind == kind) = false ↔ (b = true → update.kind ≠ kind) := by
    cases b with
    | false => exact ⟨fun _ => nofun, fun _ => rfl⟩
    | true => simp
  rw [hflag, hflag, ← forall_mem_pushRole]
  constructor
  · intro h
    exact ⟨h.patch, h.push, h.force, h.delete⟩
  · rintro ⟨hpatch, hpush, hforce, hdelete⟩
    exact ⟨hpatch, hpush, hforce, hdelete⟩

theorem ite_error_eq_ok {c : Prop} [Decidable c] {x : Except ε α} :
    (if c then .error d else x) = .ok a ↔ ¬c ∧ x = .ok a := by
  split
  · rename_i h
    exact ⟨nofun, fun hnot => (hnot.1 h).elim⟩
  · rename_i h
    exact (and_iff_right h).symm

/-- An update passes exactly when it is allowed by the set of the rules. -/
theorem evaluateRefUpdate_eq_ok_iff {rules : List ProtectionRule} :
    evaluateRefUpdate update role rules = .ok () ↔ Allowed update role { rule | rule ∈ rules } := by
  rw [allowed_iff]
  unfold evaluateRefUpdate
  dsimp only
  cases hmatch : (EffectiveRules.forRef update.refName rules).hasExplicitMatch with
  | false =>
    have hnone : EffectiveRules.forRef update.refName rules = .none :=
      (EffectiveRules.foldl_eq_self rules hmatch).1
    rw [hnone, and_iff_left EffectiveRules.permits_none, if_pos Bool.not_false,
      ite_error_eq_ok, Bool.not_eq_true, Bool.not_eq_false', MemberRole.hasAtLeast_iff]
    exact and_iff_left rfl
  | true =>
    rw [if_neg (by decide), EffectiveRules.permits_iff]
    generalize EffectiveRules.forRef update.refName rules = e
    simp only [ite_error_eq_ok, Bool.not_eq_true, Bool.not_eq_false', MemberRole.hasAtLeast_iff,
      permissionLevel_minRole, Nat.max_le, and_true]
    tauto

theorem denial_eq_none_iff {rules : List ProtectionRule} :
    denial update role rules = none ↔ evaluateRefUpdate update role rules = .ok () := by
  unfold denial
  cases evaluateRefUpdate update role rules with
  | ok _ => exact ⟨fun _ => rfl, fun _ => rfl⟩
  | error d => exact ⟨nofun, nofun⟩

theorem evaluatePush_eq_ok_iff {updates : List RefUpdate} {rules : List ProtectionRule} :
    evaluatePush updates role rules = .ok () ↔
      ∀ update ∈ updates, Allowed update role { rule | rule ∈ rules } := by
  have hdenials : (updates.filterMap fun update => denial update role rules).isEmpty = true ↔
      ∀ update ∈ updates, Allowed update role { rule | rule ∈ rules } := by
    rw [List.isEmpty_iff, List.filterMap_eq_nil_iff]
    simp only [denial_eq_none_iff, evaluateRefUpdate_eq_ok_iff]
  rw [← hdenials, evaluatePush]
  split
  · rename_i h
    exact ⟨fun _ => h, fun _ => rfl⟩
  · rename_i h
    exact ⟨nofun, fun hempty => (h hempty).elim⟩

theorem evaluatePush_perm {rules rules' : List ProtectionRule} (h : rules.Perm rules')
    (updates : List RefUpdate) (role : MemberRole) :
    evaluatePush updates role rules = evaluatePush updates role rules' := by
  have hdenial (update : RefUpdate) : denial update role rules = denial update role rules' := by
    unfold denial evaluateRefUpdate
    rw [EffectiveRules.forRef_perm h]
  unfold evaluatePush
  simp only [hdenial]

/-- Rules only ever restrict, below the built-in roles and for every role alike, and they may be
written in any order. -/
theorem protection_restricts (updates : List RefUpdate) :
    (∀ role R R', R ⊆ R' → evaluatePush updates role R' = .ok () →
      evaluatePush updates role R = .ok () ∧
        ∀ update ∈ updates, role.hasAtLeast (defaultMinRole update.refName update.kind) = true) ∧
    (∀ role role' R, MemberRole.permissionLevel role ≤ MemberRole.permissionLevel role' →
      evaluatePush updates role R = .ok () → evaluatePush updates role' R = .ok ()) ∧
    ∀ role R R', R.Perm R' → evaluatePush updates role R = evaluatePush updates role R' := by
  refine ⟨?_, ?_, ?_⟩
  · intro role R R' hsub h
    rw [evaluatePush_eq_ok_iff] at h ⊢
    exact ⟨fun update hu => (h update hu).anti fun _ hr => hsub hr,
      fun update hu => MemberRole.hasAtLeast_iff.mpr (h update hu).default⟩
  · intro role role' R hrole h
    rw [evaluatePush_eq_ok_iff] at h ⊢
    exact fun update hu => (h update hu).mono hrole
  · intro role R R' hperm
    exact evaluatePush_perm hperm updates role

namespace PolicyExample

def branches : RefPattern :=
  ⟨"refs/heads/*", [.literal "refs", .literal "heads", .wildcard], by decide⟩

/-- Members may push to branches, but not by force. -/
def branchRule : ProtectionRule :=
  ⟨branches, some .member, true, false, false⟩

def pushMain : RefUpdate :=
  ⟨"refs/heads/main", .fastForward, "", ""⟩

end PolicyExample

open PolicyExample in
theorem protection_restricts_main :
    evaluatePush [pushMain] .member [branchRule] = .ok () ∧
      evaluatePush [pushMain] .member [] = .ok () := by
  have hallowed : evaluatePush [pushMain] .member [branchRule] = .ok () := by decide +kernel
  have hrestricts := (protection_restricts [pushMain]).1 .member [] [branchRule]
  exact ⟨hallowed, (hrestricts (List.nil_subset _) hallowed).1⟩

end Buzz.Git.Perms
