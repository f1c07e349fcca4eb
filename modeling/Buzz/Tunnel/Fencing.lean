import Buzz.Lib.Run
import Buzz.Tunnel.Directory

namespace Buzz.Tunnel
set_option autoImplicit true
open SessionDirectory

/-- What a directory is for: the last generation, and who got it if the lease is still there. -/
structure Fence where
  generation : Nat
  holder : Option (RuntimeId × Profile)

/-- The text of the lease that a runtime got with a generation. -/
def leaseText (owner : RuntimeId) (generation : Nat) (profile : Profile) : List Char :=
  leaseValue owner.toChars (Redis.tostring generation) profile.asWireStr

/-- The two keys of a session hold a fence. -/
structure Represents (keys : SessionKeys) (r : Redis) (f : Fence) : Prop where
  bound : f.generation < 2 ^ 63
  counter : r keys.generation =
    if f.generation = 0 then none else some ⟨Decimal.write f.generation, none⟩
  lease : (r keys.lease).map Entry.value = f.holder.map fun x => leaseText x.1 f.generation x.2
  positive : f.holder ≠ none → 0 < f.generation

variable {keys : SessionKeys} {r r' : Redis} {f : Fence}

theorem SessionKeys.new_lease_ne_generation (c c' : CommunityId) (s s' : Uuid) :
    (SessionKeys.new c s).lease ≠ (SessionKeys.new c' s').generation := by
  intro h
  have hlease : ":lease".toList.length = 6 := by decide
  have hgeneration : ":generation".toList.length = 11 := by decide
  unfold SessionKeys.new at h
  dsimp only at h
  generalize "buzz:".toList = buzz, ":tunnel:".toList = tunnel at h
  have hlength := congrArg List.length h
  simp only [List.length_append, Uuid.length_toString, hlease, hgeneration] at hlength
  omega

theorem append_cut {a a' b b' : List Char} {u u' : Uuid} (h : a.length = a'.length)
    (heq : a ++ u.toString.toList ++ b = a' ++ u'.toString.toList ++ b') :
    a = a' ∧ u = u' ∧ b = b' := by
  have hlength : (a ++ u.toString.toList).length = (a' ++ u'.toString.toList).length := by
    rw [List.length_append, List.length_append, h, Uuid.length_toString, Uuid.length_toString]
  obtain ⟨hleft, hb⟩ := List.append_inj heq hlength
  obtain ⟨ha, hu⟩ := List.append_inj hleft h
  exact ⟨ha, Uuid.toString_injective (String.toList_injective hu), hb⟩

theorem base_injective {c c' : CommunityId} {s s' : Uuid} {suffix : List Char}
    (h : "buzz:".toList ++ c.uuid.toString.toList ++ ":tunnel:".toList ++ s.toString.toList ++ suffix =
      "buzz:".toList ++ c'.uuid.toString.toList ++ ":tunnel:".toList ++ s'.toString.toList ++ suffix) :
    c = c' ∧ s = s' := by
  have hlength : ("buzz:".toList ++ c.uuid.toString.toList ++ ":tunnel:".toList).length =
      ("buzz:".toList ++ c'.uuid.toString.toList ++ ":tunnel:".toList).length := by
    simp only [List.length_append, Uuid.length_toString]
  obtain ⟨hbase, hs, _⟩ := append_cut hlength h
  obtain ⟨_, hc, _⟩ := append_cut rfl hbase
  cases c
  cases c'
  exact ⟨congrArg CommunityId.mk hc, hs⟩

/-- Different sessions have different keys. -/
theorem SessionKeys.new_injective {c c' : CommunityId} {s s' : Uuid}
    (hne : ¬(c' = c ∧ s' = s)) :
    (SessionKeys.new c s).lease ≠ (SessionKeys.new c' s').lease ∧
      (SessionKeys.new c s).generation ≠ (SessionKeys.new c' s').generation := by
  constructor
  · intro h
    exact hne (base_injective h.symm)
  · intro h
    exact hne (base_injective h.symm)

theorem bar_not_mem_toChars (x : HexId n) : '|' ∉ x.toChars := by
  have hdigit : ∀ d : Fin 16, Hex.digitChar d ≠ '|' := by decide
  intro h
  obtain ⟨d, _, hd⟩ := List.mem_map.mp h
  exact hdigit d hd

theorem bar_not_mem_tostring (n : Nat) : '|' ∉ Redis.tostring n :=
  Decimal.not_mem_writeG (by decide) (by decide) (by decide) (by decide)

theorem bar_not_mem_asWireStr (p : Profile) : '|' ∉ p.asWireStr := by
  cases p <;> decide

theorem asWireStr_ne_nil (p : Profile) : p.asWireStr ≠ [] := by
  cases p <;> decide

theorem fromWire_asWireStr (p : Profile) : Profile.fromWire p.asWireStr = some p := by
  cases p <;> decide

theorem splitOn_leaseText (owner : RuntimeId) (n : Nat) (profile : Profile) :
    (leaseText owner n profile).splitOn '|' =
      [owner.toChars, Redis.tostring n, profile.asWireStr] := by
  apply List.splitOn_intercalate
  · intro part hpart
    simp only [List.mem_cons, List.not_mem_nil, or_false] at hpart
    rcases hpart with rfl | rfl | rfl
    · exact bar_not_mem_toChars owner
    · exact bar_not_mem_tostring n
    · exact bar_not_mem_asWireStr profile
  · exact List.cons_ne_nil _ _

theorem matchLease_leaseText (owner : RuntimeId) (n : Nat) (profile : Profile) :
    matchLease (leaseText owner n profile) =
      some (owner.toChars, Redis.tostring n, profile.asWireStr) := by
  have howner : owner.toChars ≠ [] := by
    rw [← List.length_pos_iff, HexId.toChars_length]
    decide
  rw [matchLease, splitOn_leaseText]
  dsimp only
  rw [if_neg]
  rw [not_or, not_or]
  exact ⟨howner, Decimal.writeG_ne_nil _, asWireStr_ne_nil profile⟩

/-- A lease reads as what was written, if it reads at all: a generation of more than fourteen
digits does not. -/
theorem parseLease_leaseText (h : parseLease c s (leaseText owner n profile) = .ok lease) :
    lease = ⟨c, s, owner, n, profile⟩ := by
  unfold parseLease at h
  rw [splitOn_leaseText] at h
  dsimp only at h
  rcases Decimal.writeG_toDouble n with ⟨hn, htext⟩ | ⟨_, he⟩
  · have hparse : Decimal.parse (2 ^ 64) (Redis.tostring n) = some n := by
      rw [show Redis.tostring n = Decimal.write n from htext]
      exact Decimal.parse_write (by omega)
    rw [hparse] at h
    dsimp only at h
    split at h
    · cases h
    · rw [fromWire_asWireStr, HexId.ofChars_toChars] at h
      exact (Except.ok.inj h).symm
  · have hparse : Decimal.parse (2 ^ 64) (Redis.tostring n) = none :=
      Decimal.parse_eq_none he (by decide) (by decide)
    rw [hparse] at h
    cases h

theorem tostring_eq_write {n : Nat} (h : Redis.tostring n = Decimal.write m) : n = m := by
  rcases Decimal.writeG_toDouble n with ⟨_, htext⟩ | ⟨_, he⟩
  · exact Decimal.write_injective (htext.symm.trans h)
  · have hmem : 'e' ∈ Decimal.write m := by
      rw [← h]
      exact he
    exact (Decimal.not_mem_write (by decide) hmem).elim

namespace Represents

theorem congr (h : Represents keys r f) (hlease : r' keys.lease = r keys.lease)
    (hgeneration : r' keys.generation = r keys.generation) : Represents keys r' f := by
  refine ⟨h.bound, ?_, ?_, h.positive⟩
  · rw [hgeneration, h.counter]
  · rw [hlease, h.lease]

/-- What a lease key that can be read holds. -/
theorem get_lease (h : Represents keys r f) (hget : r.get now keys.lease = some value) :
    ∃ owner profile, f.holder = some (owner, profile) ∧
      value = leaseText owner f.generation profile := by
  obtain ⟨e, he, rfl⟩ := Redis.get_eq_some hget
  have hlease := h.lease
  rw [he] at hlease
  cases hholder : f.holder with
  | none =>
    rw [hholder] at hlease
    cases hlease
  | some x =>
    rw [hholder] at hlease
    exact ⟨x.1, x.2, rfl, Option.some.inj hlease⟩

theorem parseOptionalLease {lease : SessionLease} (h : Represents keys r f)
    (hparse : Tunnel.parseOptionalLease c s ((r.get now keys.lease).getD []) = .ok (some lease)) :
    ∃ owner profile, f.holder = some (owner, profile) ∧
      lease = ⟨c, s, owner, f.generation, profile⟩ := by
  unfold Tunnel.parseOptionalLease at hparse
  split at hparse
  · cases hparse
  · cases hget : r.get now keys.lease with
    | none =>
      rename_i hne
      rw [hget] at hne
      exact (hne rfl).elim
    | some value =>
      obtain ⟨owner, profile, hholder, rfl⟩ := h.get_lease hget
      rw [hget, Option.getD_some] at hparse
      obtain ⟨lease', hlease, heq⟩ := ok_of_map hparse
      cases heq
      exact ⟨owner, profile, hholder, parseLease_leaseText hlease⟩

end Represents

theorem checkFence_eq_ok (h : checkFence fenced known current = .ok ()) :
    ∃ lease, current = some lease ∧ fenced.generation = lease.generation ∧
      fenced.ownerRuntimeId = lease.ownerRuntimeId := by
  unfold checkFence at h
  dsimp only at h
  split at h
  · cases h
  · cases current with
    | none => cases h
    | some lease =>
      dsimp only at h
      split at h
      · cases h
      · split at h
        · cases h
        · rename_i hgeneration howner
          exact ⟨lease, rfl, not_not.mp hgeneration, not_not.mp howner⟩

theorem validateFencedHeader_eq_ok {env : Env} {c : CommunityId}
    (h : validateFencedHeader env c fenced r = .ok ()) :
    ∃ known current,
      parseOptionalLease c fenced.sessionId
        ((r.get env.now (SessionKeys.new c fenced.sessionId).lease).getD []) = .ok current ∧
      checkFence fenced known current = .ok () := by
  obtain ⟨_, _, hrest⟩ := ok_of_bind h
  obtain ⟨⟨leaseValue, generation⟩, hread, hrest⟩ := ok_of_bind hrest
  dsimp only at hrest
  obtain ⟨known, _, hrest⟩ := ok_of_bind hrest
  obtain ⟨current, hcurrent, hcheck⟩ := ok_of_bind hrest
  unfold invokeValidate at hread
  split at hread
  · cases hread
    exact ⟨_, current, ok_of_mapError hcurrent, hcheck⟩
  · cases hread
  · cases hread

/-- A frame passes only with the owner and the generation of the lease. -/
theorem Represents.validate {env : Env} {c : CommunityId}
    (h : Represents (.new c fenced.sessionId) r f)
    (hvalid : validateFencedHeader env c fenced r = .ok ()) :
    ∃ profile, f.holder = some (fenced.ownerRuntimeId, profile) ∧
      fenced.generation = f.generation := by
  obtain ⟨known, current, hparse, hcheck⟩ := validateFencedHeader_eq_ok hvalid
  obtain ⟨lease, rfl, hgeneration, howner⟩ := checkFence_eq_ok hcheck
  obtain ⟨owner, profile, hholder, rfl⟩ := h.parseOptionalLease hparse
  exact ⟨profile, by rw [hholder, howner], hgeneration⟩

theorem acquireScript_of_ne (hlease : k ≠ keys.lease) (hgeneration : k ≠ keys.generation) :
    (acquireScript now keys owner profile ttl r).2 k = r k := by
  unfold acquireScript
  split
  · rfl
  · split
    · rfl
    · rename_i hincr
      exact (Redis.set_of_ne hlease _).trans (Redis.incr_of_ne hincr hgeneration)

theorem ownerScript_of_ne {act : Redis → Redis} (hact : act r k = r k) :
    (ownerScript now keys status act owner generation r).2 k = r k := by
  unfold ownerScript
  split
  · rfl
  · dsimp only
    split
    · exact hact
    · rfl

namespace Represents

theorem incr (h : Represents keys r f) :
    r.incr now keys.generation = .error .overflow ∨ f.generation + 1 < 2 ^ 63 ∧
      r.incr now keys.generation = .ok (((f.generation + 1 : Nat) : Int),
        r.set keys.generation ⟨Decimal.write (f.generation + 1), none⟩) := by
  have hcounter := h.counter
  have hbound := h.bound
  split at hcounter
  · rename_i hzero
    refine .inr ⟨by omega, ?_⟩
    rw [Redis.incr_of_none hcounter, hzero]
    rfl
  · by_cases hfull : f.generation = 2 ^ 63 - 1
    · exact .inl (Redis.incr_of_full hcounter hfull)
    · exact .inr ⟨by omega, Redis.incr_of_counter hcounter (by omega)⟩

/-- The lease that an acquire writes. -/
theorem acquired {f : Fence} (hne : keys.lease ≠ keys.generation)
    (hbound : f.generation + 1 < 2 ^ 63) (owner : RuntimeId) (profile : Profile) :
    Represents keys
      ((r.set keys.generation ⟨Decimal.write (f.generation + 1), none⟩).setPx now keys.lease
        (leaseText owner (f.generation + 1) profile) ttl)
      ⟨f.generation + 1, some (owner, profile)⟩ := by
  refine ⟨hbound, ?_, ?_, fun _ => Nat.succ_pos _⟩
  · rw [Redis.setPx, Redis.set_of_ne hne.symm, Redis.set_self]
    exact (if_neg (Nat.succ_ne_zero _)).symm
  · rw [Redis.setPx, Redis.set_self]
    rfl

/-- An acquire finds the lease or takes the next generation. -/
theorem acquireScript_cases (h : Represents keys r f) (hne : keys.lease ≠ keys.generation)
    {owner : RuntimeId} {profile : Profile}
    (hrun : acquireScript now keys owner.toChars profile.asWireStr ttl r = (res, r')) :
    (r' = r ∧ ∀ reply, res = .ok reply → reply.status = "exists" ∧
      ∃ owner' profile', f.holder = some (owner', profile') ∧
        reply.value = leaseText owner' f.generation profile') ∨
    (Represents keys r' ⟨f.generation + 1, some (owner, profile)⟩ ∧ ∀ reply, res = .ok reply →
      reply.status = "acquired" ∧ reply.value = leaseText owner (f.generation + 1) profile) := by
  unfold acquireScript at hrun
  split at hrun
  · rename_i current hget
    cases hrun
    left
    refine ⟨rfl, ?_⟩
    rintro _ ⟨⟩
    exact ⟨rfl, h.get_lease hget⟩
  · rcases h.incr with hincr | ⟨hbound, hincr⟩
    · rw [hincr] at hrun
      cases hrun
      exact .inl ⟨rfl, nofun⟩
    · rw [hincr] at hrun
      cases hrun
      right
      refine ⟨acquired hne hbound owner profile, ?_⟩
      rintro _ ⟨⟩
      exact ⟨rfl, rfl⟩

/-- A lease is acted on only for its owner and generation. -/
theorem ownerScript_cases (h : Represents keys r f) (status : String) (act : Redis → Redis)
    (owner : RuntimeId) (generation : Nat) :
    (ownerScript now keys status act owner.toChars (Decimal.write generation) r).2 = r ∨
      (∃ profile, f.holder = some (owner, profile)) ∧ f.generation = generation ∧
        (ownerScript now keys status act owner.toChars (Decimal.write generation) r).2 = act r := by
  unfold ownerScript
  cases hget : r.get now keys.lease with
  | none => exact .inl rfl
  | some current =>
    dsimp only
    split
    · rename_i hmatch
      obtain ⟨owner', profile, hholder, rfl⟩ := h.get_lease hget
      rw [matchLease_leaseText] at hmatch
      obtain ⟨howner, hgeneration⟩ := Prod.mk.inj (Option.some.inj hmatch)
      obtain rfl : owner' = owner := HexId.toHex_injective (congrArg String.ofList howner)
      exact .inr ⟨⟨profile, hholder⟩, tostring_eq_write hgeneration, rfl⟩
    · exact .inl rfl

theorem renewed (h : Represents keys r f) (hne : keys.lease ≠ keys.generation) :
    Represents keys (r.pexpire now keys.lease ttl) f := by
  refine ⟨h.bound, ?_, ?_, h.positive⟩
  · rw [Redis.pexpire_of_ne hne.symm]
    exact h.counter
  · rw [Redis.map_value_pexpire]
    exact h.lease

theorem released (h : Represents keys r f) (hne : keys.lease ≠ keys.generation) :
    Represents keys (r.del keys.lease) ⟨f.generation, none⟩ := by
  refine ⟨h.bound, ?_, ?_, nofun⟩
  · rw [Redis.del_of_ne hne.symm]
    exact h.counter
  · rw [Redis.del_self]
    rfl

end Represents

section Handlers

variable {env : Env}

theorem invoke_cases {script : Script} (h : invoke env script r = (res, r')) :
    (r' = r ∧ ∃ e, res = .error e) ∨
      (r' = (script r).2 ∧ ∀ reply, res = .ok reply → (script r).1 = .ok reply) := by
  unfold invoke at h
  split at h
  · cases h
    exact .inr ⟨rfl, fun reply hreply => ok_of_mapError hreply⟩
  · cases h
    exact .inl ⟨rfl, _, rfl⟩
  · cases h
    exact .inr ⟨rfl, nofun⟩

theorem acquire_cases (h : acquire env c s owner profile r = (res, r')) :
    (r' = r ∧ ∃ e, res = .error e) ∨ ∃ ttl,
      r' = (acquireScript env.now (.new c s) owner.toChars profile.asWireStr ttl r).2 ∧
      ∀ result, res = .ok result → ∃ reply lease,
        (acquireScript env.now (.new c s) owner.toChars profile.asWireStr ttl r).1 = .ok reply ∧
        parseLease c s reply.value = .ok lease ∧
        (reply.status = "acquired" ∧ result = .acquired lease ∨
          reply.status = "exists" ∧ result = .existing lease) := by
  rcases Fallible.check_bind_cases h with ⟨e, he, hr⟩ | ⟨_, _, h⟩
  · exact .inl ⟨hr, e, he⟩
  rcases Fallible.check_bind_cases h with ⟨e, he, hr⟩ | ⟨ttl, _, h⟩
  · exact .inl ⟨hr, e, he⟩
  rcases Fallible.check_bind_cases h with ⟨e, he, hr⟩ | ⟨_, _, h⟩
  · exact .inl ⟨hr, e, he⟩
  rcases Fallible.bind_cases h with ⟨e, hinvoke, rfl⟩ | ⟨reply, t, hinvoke, h⟩
  · rcases invoke_cases hinvoke with ⟨hr, _⟩ | ⟨hr, _⟩
    · exact .inl ⟨hr, e, rfl⟩
    · exact .inr ⟨ttl, hr, nofun⟩
  · rcases invoke_cases hinvoke with ⟨_, _, he⟩ | ⟨rfl, hreply⟩
    · cases he
    right
    refine ⟨ttl, ?_⟩
    rcases Fallible.check_bind_cases h with ⟨e, rfl, hr⟩ | ⟨lease, hlease, h⟩
    · exact ⟨hr, nofun⟩
    rcases Fallible.check_bind_cases h with ⟨e, rfl, hr⟩ | ⟨_, _, h⟩
    · exact ⟨hr, nofun⟩
    split at h
    · rename_i hstatus
      cases h
      refine ⟨rfl, ?_⟩
      rintro _ ⟨⟩
      exact ⟨reply, lease, hreply reply rfl, hlease, .inl ⟨hstatus, rfl⟩⟩
    · split at h
      · rename_i hstatus
        cases h
        refine ⟨rfl, ?_⟩
        rintro _ ⟨⟩
        exact ⟨reply, lease, hreply reply rfl, hlease, .inr ⟨hstatus, rfl⟩⟩
      · cases h
        exact ⟨rfl, nofun⟩

/-- Where all that follows a script only reads, the script decides what is stored. -/
theorem invoke_bind_cases {script : Script} {g : ScriptReply → Handler α}
    (h : (invoke env script >>= g) r = (res, r')) (hg : ∀ reply, (g reply).ReadOnly) :
    r' = r ∨ r' = (script r).2 := by
  rcases Fallible.bind_cases h with ⟨e, hinvoke, _⟩ | ⟨reply, t, hinvoke, hrest⟩
  · rcases invoke_cases hinvoke with ⟨hr, _⟩ | ⟨hr, _⟩
    · exact .inl hr
    · exact .inr hr
  · obtain rfl := (hg reply).eq hrest
    rcases invoke_cases hinvoke with ⟨hr, _⟩ | ⟨hr, _⟩
    · exact .inl hr
    · exact .inr hr

/-- What `renew` and `release` do with the reply to their script. -/
theorem readOnly_ownerReply (status : String) {reply : ScriptReply} {c : CommunityId} {s : Uuid}
    {done : SessionLease → α} {lost : Option SessionLease → Option Nat → α} :
    @Fallible.ReadOnly Redis DirectoryError α (do
      let current ← .check fun _ => parseOptionalLease c s reply.value
      .check fun _ => env.finish
      if reply.status = status then
        match current with
        | some current => pure (done current)
        | none => .fail .panicked
      else if reply.status = "missing" ∨ reply.status = "lost" then do
        let known ← .check fun _ => parseOptionalGeneration c s reply.knownGeneration
        pure (lost current known)
      else .fail (.unexpectedScriptStatus reply.status)) := by
  refine (Fallible.readOnly_check _).bind fun current => ?_
  refine (Fallible.readOnly_check _).bind fun _ => ?_
  split
  · cases current with
    | none => exact Fallible.readOnly_fail _
    | some lease => exact Fallible.readOnly_pure _
  · split
    · exact (Fallible.readOnly_check _).bind fun _ => Fallible.readOnly_pure _
    · exact Fallible.readOnly_fail _

theorem renew_cases {lease : SessionLease} (h : renew env lease r = (res, r')) :
    r' = r ∨ ∃ ttl, r' =
      (renewScript env.now (.new lease.communityId lease.sessionId) lease.ownerRuntimeId.toChars
        (Decimal.write lease.generation) ttl r).2 := by
  rcases Fallible.check_bind_cases h with ⟨_, _, hr⟩ | ⟨_, _, h⟩
  · exact .inl hr
  rcases Fallible.check_bind_cases h with ⟨_, _, hr⟩ | ⟨ttl, _, h⟩
  · exact .inl hr
  rcases Fallible.check_bind_cases h with ⟨_, _, hr⟩ | ⟨_, _, h⟩
  · exact .inl hr
  rcases invoke_bind_cases h fun _ => readOnly_ownerReply "renewed" with hr | hr
  · exact .inl hr
  · exact .inr ⟨ttl, hr⟩

theorem release_cases {lease : SessionLease} (h : release env lease r = (res, r')) :
    r' = r ∨ r' =
      (releaseScript env.now (.new lease.communityId lease.sessionId) lease.ownerRuntimeId.toChars
        (Decimal.write lease.generation) r).2 := by
  rcases Fallible.check_bind_cases h with ⟨_, _, hr⟩ | ⟨_, _, h⟩
  · exact .inl hr
  rcases Fallible.check_bind_cases h with ⟨_, _, hr⟩ | ⟨_, _, h⟩
  · exact .inl hr
  exact invoke_bind_cases h fun _ => readOnly_ownerReply "released"

end Handlers

inductive Call where
  | acquire (communityId : CommunityId) (sessionId : Uuid) (ownerRuntimeId : RuntimeId)
      (profile : Profile)
  | renew (lease : SessionLease)
  | release (lease : SessionLease)

inductive Reply where
  | acquire (result : AcquireResult)
  | renew (result : RenewResult)
  | release (result : ReleaseResult)

def Call.run (env : Env) : Call → Handler Reply
  | .acquire c s owner profile => .acquire <$> SessionDirectory.acquire env c s owner profile
  | .renew lease => .renew <$> SessionDirectory.renew env lease
  | .release lease => .release <$> SessionDirectory.release env lease

/-- One call with what it returned. -/
structure Item where
  env : Env
  call : Call
  result : Except DirectoryError Reply

/-- Calls of any runtimes for any sessions, each at any time and with any mishap. -/
def Step (r : Redis) (x : Item) (r' : Redis) : Prop :=
  x.call.run x.env r = (x.result, r')

theorem step_run (env : Env) (call : Call) (r : Redis) :
    Step r ⟨env, call, (call.run env r).1⟩ (call.run env r).2 :=
  rfl

/-- What an acquire of the session returned. -/
def acquireResult (c : CommunityId) (s : Uuid) (x : Item) : Option AcquireResult :=
  match x.call, x.result with
  | .acquire c' s' _ _, .ok (.acquire result) => if c' = c ∧ s' = s then some result else none
  | _, _ => none

/-- The generation that an acquire handed out. -/
def AcquireResult.handedOut : AcquireResult → Option Nat
  | acquired lease => some lease.generation
  | existing _ => none

/-- The generation of the lease that an acquire created or found. -/
def AcquireResult.generation : AcquireResult → Nat
  | acquired lease => lease.generation
  | existing lease => lease.generation

theorem acquireResult_eq_some {c : CommunityId} {s : Uuid} {x : Item}
    (h : acquireResult c s x = some result) :
    ∃ owner profile, x.call = .acquire c s owner profile ∧ x.result = .ok (.acquire result) := by
  obtain ⟨env, call, out⟩ := x
  unfold acquireResult at h
  dsimp only at h
  split at h
  · rename_i c' s' owner profile result'
    split at h
    · rename_i hsession
      obtain ⟨rfl, rfl⟩ := hsession
      cases h
      exact ⟨owner, profile, rfl, rfl⟩
    · cases h
  · cases h

theorem Represents.acquire {c : CommunityId} {s : Uuid} (h : Represents (.new c s) r f)
    (hrun : SessionDirectory.acquire env c s owner profile r = (res, r')) :
    ∃ f', Represents (.new c s) r' f' ∧ f.generation ≤ f'.generation ∧
      (∀ lease, res = .ok (.acquired lease) →
        f.generation < lease.generation ∧ lease.generation = f'.generation) ∧
      ∀ lease, res = .ok (.existing lease) → lease.generation = f'.generation := by
  rcases acquire_cases hrun with ⟨rfl, e, rfl⟩ | ⟨ttl, hstore, hresult⟩
  · exact ⟨f, h, Nat.le_refl _, nofun, nofun⟩
  have hne := SessionKeys.new_lease_ne_generation c c s s
  generalize hscript : acquireScript env.now (.new c s) owner.toChars profile.asWireStr ttl r = out
    at hstore hresult
  obtain ⟨out, stored⟩ := out
  obtain rfl : r' = stored := hstore
  rcases h.acquireScript_cases hne hscript with ⟨rfl, hexists⟩ | ⟨hnew, hacquired⟩
  · refine ⟨f, h, Nat.le_refl _, ?_, ?_⟩
    · rintro lease rfl
      obtain ⟨reply, _, hreply, _, ⟨hstatus, _⟩ | ⟨_, hres⟩⟩ := hresult _ rfl
      · have hboth := (hexists reply hreply).1
        rw [hstatus] at hboth
        exact absurd hboth (by decide)
      · cases hres
    · rintro lease rfl
      obtain ⟨reply, lease', hreply, hparse, ⟨_, hres⟩ | ⟨_, hres⟩⟩ := hresult _ rfl
      · cases hres
      · cases hres
        obtain ⟨_, owner', profile', _, hvalue⟩ := hexists reply hreply
        rw [hvalue] at hparse
        rw [parseLease_leaseText hparse]
  · refine ⟨_, hnew, Nat.le_succ _, ?_, ?_⟩
    · rintro lease rfl
      obtain ⟨reply, lease', hreply, hparse, ⟨_, hres⟩ | ⟨_, hres⟩⟩ := hresult _ rfl
      · cases hres
        obtain ⟨_, hvalue⟩ := hacquired reply hreply
        rw [hvalue] at hparse
        rw [parseLease_leaseText hparse]
        exact ⟨Nat.lt_succ_self _, rfl⟩
      · cases hres
    · rintro lease rfl
      obtain ⟨reply, _, hreply, _, ⟨_, hres⟩ | ⟨hstatus, _⟩⟩ := hresult _ rfl
      · cases hres
      · have hboth := (hacquired reply hreply).1
        rw [hstatus] at hboth
        exact absurd hboth (by decide)

/-- A renewal changes the lease only of its owner and generation. -/
theorem Represents.renew {lease : SessionLease}
    (h : Represents (.new lease.communityId lease.sessionId) r f)
    (hrun : SessionDirectory.renew env lease r = (res, r')) :
    Represents (.new lease.communityId lease.sessionId) r' f ∧
      (r' = r ∨ (∃ profile, f.holder = some (lease.ownerRuntimeId, profile)) ∧
        f.generation = lease.generation) := by
  have hne := SessionKeys.new_lease_ne_generation lease.communityId lease.communityId
    lease.sessionId lease.sessionId
  rcases renew_cases hrun with rfl | ⟨ttl, rfl⟩
  · exact ⟨h, .inl rfl⟩
  · rcases h.ownerScript_cases "renewed" _ lease.ownerRuntimeId lease.generation with
      hsame | ⟨hholder, hgeneration, hact⟩
    · rw [renewScript, hsame]
      exact ⟨h, .inl rfl⟩
    · rw [renewScript, hact]
      exact ⟨h.renewed hne, .inr ⟨hholder, hgeneration⟩⟩

theorem Represents.release {lease : SessionLease}
    (h : Represents (.new lease.communityId lease.sessionId) r f)
    (hrun : SessionDirectory.release env lease r = (res, r')) :
    (∃ holder, Represents (.new lease.communityId lease.sessionId) r' ⟨f.generation, holder⟩) ∧
      (r' = r ∨ (∃ profile, f.holder = some (lease.ownerRuntimeId, profile)) ∧
        f.generation = lease.generation) := by
  have hne := SessionKeys.new_lease_ne_generation lease.communityId lease.communityId
    lease.sessionId lease.sessionId
  rcases release_cases hrun with rfl | rfl
  · exact ⟨⟨f.holder, h⟩, .inl rfl⟩
  · rcases h.ownerScript_cases "released" _ lease.ownerRuntimeId lease.generation with
      hsame | ⟨hholder, hgeneration, hact⟩
    · rw [releaseScript, hsame]
      exact ⟨⟨f.holder, h⟩, .inl rfl⟩
    · rw [releaseScript, hact]
      exact ⟨⟨none, h.released hne⟩, .inr ⟨hholder, hgeneration⟩⟩

def Call.session : Call → CommunityId × Uuid
  | .acquire c s _ _ => (c, s)
  | .renew lease => (lease.communityId, lease.sessionId)
  | .release lease => (lease.communityId, lease.sessionId)

/-- A call writes only the two keys of its session. -/
theorem Step.of_ne (hstep : Step r x r') {keys : SessionKeys}
    (hkeys : keys = .new x.call.session.1 x.call.session.2)
    (hlease : k ≠ keys.lease) (hgeneration : k ≠ keys.generation) : r' k = r k := by
  obtain ⟨env, call, result⟩ := x
  subst hkeys
  cases call with
  | acquire c s owner profile =>
    rcases Fallible.map_cases hstep with ⟨_, hrun, _⟩ | ⟨_, hrun, _⟩
    all_goals
      rcases acquire_cases hrun with ⟨rfl, _⟩ | ⟨ttl, rfl, _⟩
      · rfl
      · exact acquireScript_of_ne hlease hgeneration
  | renew lease =>
    rcases Fallible.map_cases hstep with ⟨_, hrun, _⟩ | ⟨_, hrun, _⟩
    all_goals
      rcases renew_cases hrun with rfl | ⟨ttl, rfl⟩
      · rfl
      · exact ownerScript_of_ne (Redis.pexpire_of_ne hlease)
  | release lease =>
    rcases Fallible.map_cases hstep with ⟨_, hrun, _⟩ | ⟨_, hrun, _⟩
    all_goals
      rcases release_cases hrun with rfl | rfl
      · rfl
      · exact ownerScript_of_ne (Redis.del_of_ne hlease)

/-- What a call may do to the fence of a session. -/
structure Advances (c : CommunityId) (s : Uuid) (f : Fence) (x : Item) (f' : Fence) : Prop where
  le : f.generation ≤ f'.generation
  handedOut : ∀ result ∈ acquireResult c s x, ∀ g ∈ result.handedOut, f.generation < g
  returned : ∀ result ∈ acquireResult c s x, result.generation ≤ f'.generation

theorem Advances.of_none {c : CommunityId} {s : Uuid} {f f' : Fence} {x : Item}
    (hle : f.generation ≤ f'.generation) (h : acquireResult c s x = none) :
    Advances c s f x f' := by
  refine ⟨hle, ?_, ?_⟩
  · intro result hresult
    rw [h] at hresult
    cases hresult
  · intro result hresult
    rw [h] at hresult
    cases hresult

theorem Step.represents {c : CommunityId} {s : Uuid} {x : Item} (hstep : Step r x r')
    (h : Represents (.new c s) r f) :
    ∃ f', Represents (.new c s) r' f' ∧ Advances c s f x f' := by
  by_cases hsession : x.call.session.1 = c ∧ x.call.session.2 = s
  · obtain ⟨env, call, out⟩ := x
    obtain ⟨rfl, rfl⟩ := hsession
    cases call with
    | acquire c s owner profile =>
      rcases Fallible.map_cases hstep with ⟨e, hrun, rfl⟩ | ⟨result, hrun, rfl⟩
      · obtain ⟨f', hf', hle, _⟩ := h.acquire hrun
        exact ⟨f', hf', .of_none hle rfl⟩
      · obtain ⟨f', hf', hle, hacquired, hexists⟩ := h.acquire hrun
        have hthis : acquireResult c s ⟨env, .acquire c s owner profile, .ok (.acquire result)⟩ =
            some result := if_pos ⟨rfl, rfl⟩
        refine ⟨f', hf', hle, ?_, ?_⟩
        · intro result' hresult g hg
          obtain rfl := Option.some.inj (hthis.symm.trans hresult)
          cases result with
          | acquired lease =>
            cases hg
            exact (hacquired lease rfl).1
          | existing lease => cases hg
        · intro result' hresult
          obtain rfl := Option.some.inj (hthis.symm.trans hresult)
          cases result with
          | acquired lease => exact Nat.le_of_eq (hacquired lease rfl).2
          | existing lease => exact Nat.le_of_eq (hexists lease rfl)
    | renew lease =>
      rcases Fallible.map_cases hstep with ⟨e, hrun, rfl⟩ | ⟨result, hrun, rfl⟩
      · exact ⟨f, (h.renew hrun).1, .of_none (Nat.le_refl _) rfl⟩
      · exact ⟨f, (h.renew hrun).1, .of_none (Nat.le_refl _) rfl⟩
    | release lease =>
      rcases Fallible.map_cases hstep with ⟨e, hrun, rfl⟩ | ⟨result, hrun, rfl⟩
      · obtain ⟨⟨holder, hf'⟩, _⟩ := h.release hrun
        exact ⟨_, hf', .of_none (Nat.le_refl _) rfl⟩
      · obtain ⟨⟨holder, hf'⟩, _⟩ := h.release hrun
        exact ⟨_, hf', .of_none (Nat.le_refl _) rfl⟩
  · obtain ⟨hlease, hgeneration⟩ := SessionKeys.new_injective hsession
    have hnone : acquireResult c s x = none := by
      cases hresult : acquireResult c s x with
      | none => rfl
      | some result =>
        obtain ⟨owner, profile, hcall, _⟩ := acquireResult_eq_some hresult
        rw [hcall] at hsession
        exact (hsession ⟨rfl, rfl⟩).elim
    refine ⟨f, h.congr ?_ ?_, .of_none (Nat.le_refl _) hnone⟩
    · exact hstep.of_ne rfl hlease (SessionKeys.new_lease_ne_generation _ _ _ _)
    · exact hstep.of_ne rfl (SessionKeys.new_lease_ne_generation _ _ _ _).symm hgeneration

/-- The acquires of the session, in order. -/
def acquires (c : CommunityId) (s : Uuid) (items : List Item) : List AcquireResult :=
  items.filterMap (acquireResult c s)

/-- What holds of a session after any calls. -/
def Fenced (c : CommunityId) (s : Uuid) (items : List Item) (r : Redis) : Prop :=
  ∃ f, Represents (.new c s) r f ∧
    ((acquires c s items).filterMap AcquireResult.handedOut).Pairwise (· < ·) ∧
    ∀ result ∈ acquires c s items, result.generation ≤ f.generation

theorem Fenced.step {c : CommunityId} {s : Uuid} {items : List Item} {x : Item}
    (h : Fenced c s items r) (hstep : Step r x r') : Fenced c s (items ++ [x]) r' := by
  obtain ⟨f, hf, hsorted, hbound⟩ := h
  obtain ⟨f', hf', hadvances⟩ := hstep.represents hf
  have hsplit : acquires c s (items ++ [x]) =
      acquires c s items ++ (acquireResult c s x).toList := by
    rw [acquires, List.filterMap_append]
    cases hx : acquireResult c s x with
    | none => rw [List.filterMap_cons_none hx]; rfl
    | some result => rw [List.filterMap_cons_some hx]; rfl
  have hold {g : Nat} (hg : g ∈ (acquires c s items).filterMap AcquireResult.handedOut) :
      g ≤ f.generation := by
    obtain ⟨result, hresult, hhanded⟩ := List.mem_filterMap.mp hg
    cases result with
    | acquired lease =>
      cases hhanded
      exact hbound _ hresult
    | existing lease => cases hhanded
  refine ⟨f', hf', ?_, ?_⟩
  · rw [hsplit, List.filterMap_append, List.pairwise_append]
    refine ⟨hsorted, ?_, ?_⟩
    · cases acquireResult c s x with
      | none => exact .nil
      | some result =>
        cases result with
        | acquired lease => exact List.pairwise_singleton _ _
        | existing lease => exact .nil
    · intro g hg g' hg'
      obtain ⟨result, hresult, hhanded⟩ := List.mem_filterMap.mp hg'
      exact Nat.lt_of_le_of_lt (hold hg)
        (hadvances.handedOut result (Option.mem_toList.mp hresult) g' hhanded)
  · intro result hresult
    rw [hsplit, List.mem_append] at hresult
    rcases hresult with hresult | hresult
    · exact Nat.le_trans (hbound result hresult) hadvances.le
    · exact hadvances.returned result (Option.mem_toList.mp hresult)

/-- No key of the session is set. -/
structure Fresh (c : CommunityId) (s : Uuid) (r : Redis) : Prop where
  lease : r (SessionKeys.new c s).lease = none
  generation : r (SessionKeys.new c s).generation = none

theorem Fresh.fenced {c : CommunityId} {s : Uuid} (h : Fresh c s r) : Fenced c s [] r := by
  refine ⟨⟨0, none⟩, ⟨by decide, h.generation, ?_, nofun⟩, .nil, nofun⟩
  rw [h.lease]
  rfl

/-- The session accepts a frame. -/
def Accepted (c : CommunityId) (r : Redis) (fenced : FencedHeader) : Prop :=
  ∃ env, validateFencedHeader env c fenced r = .ok ()

/-- The session is currently leased to somebody else, or was leased again since. -/
def Superseded (c : CommunityId) (s : Uuid) (items : List Item) (r : Redis) (lease : SessionLease) :
    Prop :=
  (∃ result ∈ acquires c s items, lease.generation < result.generation) ∨
  ∃ env current, lookup env c s r = .ok (some current) ∧
    (current.ownerRuntimeId, current.generation) ≠ (lease.ownerRuntimeId, lease.generation)

theorem Represents.lookup {c : CommunityId} {s : Uuid} {current : SessionLease}
    (h : Represents (.new c s) r f)
    (hlookup : SessionDirectory.lookup env c s r = .ok (some current)) :
    ∃ owner profile, f.holder = some (owner, profile) ∧
      current = ⟨c, s, owner, f.generation, profile⟩ := by
  obtain ⟨_, _, hrest⟩ := ok_of_bind hlookup
  cases hget : r.get env.now (SessionKeys.new c s).lease with
  | none =>
    rw [hget] at hrest
    cases hrest
  | some value =>
    obtain ⟨owner, profile, hholder, rfl⟩ := h.get_lease hget
    rw [hget] at hrest
    obtain ⟨lease, hparse, heq⟩ := ok_of_map hrest
    cases heq
    exact ⟨owner, profile, hholder, parseLease_leaseText hparse⟩

theorem Represents.not_held {c : CommunityId} {s : Uuid} {lease : SessionLease} (h : Represents (.new c s) r f)
    (hbound : ∀ result ∈ acquires c s items, result.generation ≤ f.generation)
    (hsuperseded : Superseded c s items r lease) :
    ¬((∃ profile, f.holder = some (lease.ownerRuntimeId, profile)) ∧
      f.generation = lease.generation) := by
  rintro ⟨⟨profile, hholder⟩, hgeneration⟩
  rcases hsuperseded with ⟨result, hresult, hlt⟩ | ⟨env, current, hlookup, hne⟩
  · have hle := hbound result hresult
    omega
  · obtain ⟨owner, profile', hholder', rfl⟩ := h.lookup hlookup
    rw [hholder] at hholder'
    obtain ⟨rfl, rfl⟩ := Prod.mk.inj (Option.some.inj hholder')
    rw [hgeneration] at hne
    exact hne rfl

/-- Generations only grow, at most one fence is accepted, none below a generation that was
returned, and who was superseded changes nothing. -/
theorem session_fenced {c : CommunityId} {s : Uuid} {r₀ : Redis} {items : List Item}
    (hfresh : Fresh c s r₀) (hrun : Run Step r₀ items r) :
    ((acquires c s items).filterMap AcquireResult.handedOut).Pairwise (· < ·) ∧
    (∀ fenced fenced' : FencedHeader, fenced.sessionId = s → fenced'.sessionId = s →
      Accepted c r fenced → Accepted c r fenced' → fenced = fenced') ∧
    (∀ result ∈ acquires c s items, ∀ fenced : FencedHeader, fenced.sessionId = s →
      fenced.generation < result.generation → ¬Accepted c r fenced) ∧
    ∀ lease : SessionLease, lease.communityId = c → lease.sessionId = s →
      Superseded c s items r lease →
      ∀ env, (renew env lease r).2 = r ∧ (release env lease r).2 = r := by
  obtain ⟨f, hf, hsorted, hbound⟩ :=
    hrun.history hfresh.fenced fun _ _ _ _ h hstep => h.step hstep
  refine ⟨hsorted, ?_, ?_, ?_⟩
  · rintro fenced fenced' rfl hsession ⟨env, hvalid⟩ ⟨env', hvalid'⟩
    rw [← hsession] at hf
    obtain ⟨profile', hholder', hgeneration'⟩ := hf.validate hvalid'
    rw [hsession] at hf
    obtain ⟨profile, hholder, hgeneration⟩ := hf.validate hvalid
    rw [hholder'] at hholder
    obtain ⟨howner, _⟩ := Prod.mk.inj (Option.some.inj hholder)
    cases fenced
    cases fenced'
    cases hsession
    cases howner
    cases hgeneration
    cases hgeneration'
    rfl
  · rintro result hresult fenced rfl hlt ⟨env, hvalid⟩
    obtain ⟨_, _, hgeneration⟩ := hf.validate hvalid
    have hle := hbound result hresult
    omega
  · rintro lease rfl rfl hsuperseded env
    have hnot := hf.not_held hbound hsuperseded
    constructor
    · exact ((hf.renew rfl).2).resolve_right hnot
    · exact ((hf.release rfl).2).resolve_right hnot

namespace FencingExample

def community : CommunityId := ⟨HexId.ofNat 32 1⟩
def session : Uuid := HexId.ofNat 32 2

/-- A call at this time, with leases of ten milliseconds. -/
def env (now : Nat) : Env :=
  ⟨now, 10, .ok (), .ok (), .runs, .ok ()⟩

def first : Call := .acquire community session (HexId.ofNat 64 1) .huddleControl
def second : Call := .acquire community session (HexId.ofNat 64 2) .huddleControl

def start : Redis := fun _ => none

/-- The second runtime acquires after the lease of the first has expired. -/
def items : List Item :=
  [⟨env 0, first, (first.run (env 0) start).1⟩,
    ⟨env 20, second, (second.run (env 20) (first.run (env 0) start).2).1⟩]

def stored : Redis :=
  (second.run (env 20) (first.run (env 0) start).2).2

theorem run_items : Run Step start items stored :=
  .snoc (.snoc .nil (step_run (env 0) first start)) (step_run (env 20) second _)

end FencingExample

open FencingExample in
theorem session_fenced_takeover :
    (acquires community session items).map AcquireResult.generation = [1, 2] ∧
      ¬Accepted community stored ⟨session, 1, HexId.ofNat 64 1⟩ := by
  have hgenerations : (acquires community session items).map AcquireResult.generation = [1, 2] := by
    decide +kernel
  refine ⟨hgenerations, ?_⟩
  obtain ⟨_, _, hstale, _⟩ := session_fenced ⟨rfl, rfl⟩ run_items
  have hmem : 2 ∈ (acquires community session items).map AcquireResult.generation := by
    rw [hgenerations]
    decide
  obtain ⟨result, hresult, hgeneration⟩ := List.mem_map.mp hmem
  exact hstale result hresult _ rfl (by rw [hgeneration]; decide)

end Buzz.Tunnel
