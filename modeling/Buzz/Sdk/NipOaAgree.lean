import Buzz.Sdk.NipOa

namespace Buzz.Sdk
set_option autoImplicit true
open Json GitSign

variable {K R F : Type} {X : Externals K R F} {sha256 : ByteArray → HexId 64}
  {owner conditions sig tag : String} {agent : HexId 64}

theorem fromStr_tagText (float : List Char → Option F) (owner conditions sig : String) :
    fromStr float (tagText owner conditions sig) =
      some (.array [.string "auth", .string owner, .string conditions, .string sig]) := by
  rw [fromStr, tagText, String.toList_ofList]
  apply parseDocument_of_reads
  apply reads_value_array [(printString "auth", .string "auth"), (printString owner, .string owner),
    (printString conditions, .string conditions), (printString sig, .string sig)]
  intro x hx
  simp only [List.mem_cons, List.not_mem_nil, or_false] at hx
  rcases hx with rfl | rfl | rfl | rfl
  · exact reads_value_string "auth"
  · exact reads_value_string owner
  · exact reads_value_string conditions
  · exact reads_value_string sig

/-- What is around the conditions takes 209 bytes. -/
theorem utf8ByteSize_tagText (howner : isHexField owner 64 = true)
    (hconditions : GitSign.validateConditions conditions = true)
    (hsig : isHexField sig 128 = true) :
    (tagText owner conditions sig).utf8ByteSize = 209 + conditions.utf8ByteSize := by
  have hauth : Plain "auth".toList := by
    intro c hc
    have hcases : c = 'a' ∨ c = 'u' ∨ c = 't' ∨ c = 'h' := by simpa using hc
    rcases hcases with rfl | rfl | rfl | rfl
    all_goals exact ⟨rfl, rfl⟩
  have hownerSize : owner.utf8ByteSize = 64 := by
    rw [isHexField, Bool.and_eq_true, decide_eq_true_eq] at howner
    exact howner.1
  have hsigSize : sig.utf8ByteSize = 128 := by
    rw [isHexField, Bool.and_eq_true, decide_eq_true_eq] at hsig
    exact hsig.1
  have hauthSize : "auth".utf8ByteSize = 4 := by decide
  rw [tagText, utf8ByteSize_ofList, textSize_printArray]
  simp only [List.map_cons, List.map_nil, List.sum_cons, List.sum_nil, List.length_cons,
    List.length_nil, textSize_printString hauth, textSize_printString (plain_of_hexField howner),
    textSize_printString (plain_of_conditions hconditions),
    textSize_printString (plain_of_hexField hsig), hownerSize, hsigSize, hauthSize]
  omega

theorem tagText_ne_empty (owner conditions sig : String) : tagText owner conditions sig ≠ "" := by
  intro h
  have hlist := congrArg String.toList h
  rw [tagText, String.toList_ofList] at hlist
  cases hlist

/-- The attestation that a tag is about. -/
def attestation (X : Externals K R F) (sha256 : ByteArray → HexId 64) (k : K) (r : R)
    (agent : HexId 64) (conditions : String) : Attestation where
  owner := (X.publicKey k).toHex
  conditions := conditions
  ownerSig := (X.signSchnorr k r (hashPreimage sha256 (buildPreimage agent conditions))).toHex

theorem computeAuthTag_eq {k : K} {r : R} (hself : X.publicKey k ≠ agent)
    (hconditions : validateConditions conditions = .ok ()) :
    computeAuthTag X sha256 k r agent conditions =
      .ok (tagText (attestation X sha256 k r agent conditions).owner conditions
        (attestation X sha256 k r agent conditions).ownerSig) := by
  rw [computeAuthTag, if_neg hself, hconditions]
  rfl

theorem computeAuthTag_ok {k : K} {r : R}
    (h : computeAuthTag X sha256 k r agent conditions = .ok tag) :
    X.publicKey k ≠ agent ∧ validateConditions conditions = .ok () ∧
      tag = tagText (attestation X sha256 k r agent conditions).owner conditions
        (attestation X sha256 k r agent conditions).ownerSig := by
  rw [computeAuthTag] at h
  split at h
  · cases h
  · rename_i hself
    obtain ⟨_, hconditions, h⟩ := ok_of_bind h
    exact ⟨hself, hconditions, (Except.ok.inj h).symm⟩

theorem wellFormed_attestation {k : K} {r : R} (h : validateConditions conditions = .ok ()) :
    (attestation X sha256 k r agent conditions).WellFormed :=
  ⟨(validateConditions_iff conditions).mp h, isHexField_toHex _, isHexField_toHex _⟩

theorem parseAuthTag_tagText {oa : Attestation} (h : oa.WellFormed) :
    GitSign.parseAuthTag X (tagText oa.owner oa.conditions oa.ownerSig) = .ok oa := by
  obtain ⟨hconditions, howner, hsig⟩ := h
  rw [GitSign.parseAuthTag, fromStr_tagText]
  simp only [okOr, Value.asArray, Value.asStr, bind, Except.bind, ne_eq, not_true, if_false,
    hconditions, howner, hsig, Bool.not_true, Bool.false_eq_true]

/-- The signer takes a text that is short enough. -/
theorem loadAuthTag_of_text {text : String} {oa : Attestation} {env : Option String}
    {config : Except String (Option String)} (htext : authTagText env config = .ok (some text))
    (hparse : GitSign.parseAuthTag X text = .ok oa) : loadAuthTag X env config =
      if MAX_AUTH_TAG < text.utf8ByteSize then
        .error (.fatal ("auth tag exceeds " ++ toString MAX_AUTH_TAG ++ "-byte size limit"))
      else .ok (some oa) := by
  rw [loadAuthTag, htext]
  simp only [bind, Except.bind, hparse]
  rfl

theorem verifyOa_attestation (hX : X.Sound) (k : K) (r : R) (agent : HexId 64)
    (conditions : String) :
    verifyOa X sha256 agent.toHex (attestation X sha256 k r agent conditions) = true := by
  have hsig : HexId.ofChars 128 (attestation X sha256 k r agent conditions).ownerSig.toList =
      some (X.signSchnorr k r (hashPreimage sha256 (buildPreimage agent conditions))) := by
    rw [attestation, HexId.toHex_toList, HexId.ofChars_toChars]
  have howner : X.publicKeyFromHex (attestation X sha256 k r agent conditions).owner =
      .ok (X.publicKey k) := hX.publicKeyFromHex k
  rw [verifyOa, howner]
  simp only [hsig, hX.hasXonly, Bool.true_and]
  exact hX.verifySchnorr k r _

theorem verifyAuthTag_attestation (hX : X.Sound) {k : K} {r : R}
    (hself : X.publicKey k ≠ agent) (hconditions : validateConditions conditions = .ok ()) :
    verifyAuthTag X sha256 (tagText (attestation X sha256 k r agent conditions).owner conditions
      (attestation X sha256 k r agent conditions).ownerSig) agent = .ok (X.publicKey k) := by
  have hsig : HexId.ofChars 128 (attestation X sha256 k r agent conditions).ownerSig.toList =
      some (X.signSchnorr k r (hashPreimage sha256 (buildPreimage agent conditions))) := by
    rw [attestation, HexId.toHex_toList, HexId.ofChars_toChars]
  have howner : X.publicKeyFromHex (attestation X sha256 k r agent conditions).owner =
      .ok (X.publicKey k) := hX.publicKeyFromHex k
  have hverify := hX.verifySchnorr k r (hashPreimage sha256 (buildPreimage agent conditions))
  rw [verifyAuthTag, parseJsonArray, fromStr_tagText]
  change verifyFields X sha256 (attestation X sha256 k r agent conditions).owner conditions
    (attestation X sha256 k r agent conditions).ownerSig agent = _
  rw [verifyFields, howner, hconditions]
  change (if X.publicKey k = agent then _ else _) = _
  rw [if_neg hself, hsig]
  change (if (! X.hasXonly (X.publicKey k)) = true then _ else if X.verifySchnorr _ _ _ = true then
    _ else _) = _
  rw [hX.hasXonly, hverify]
  rfl

theorem parseAuthTag_attestation {oa : Attestation} (h : oa.WellFormed) :
    parseAuthTag X (tagText oa.owner oa.conditions oa.ownerSig) =
      .ok ["auth", oa.owner, oa.conditions, oa.ownerSig] := by
  obtain ⟨hconditions, howner, hsig⟩ := h
  rw [parseAuthTag, parseJsonArray, fromStr_tagText]
  simp only [okOr, Value.asArray, bind, Except.bind]
  rw [checkFields]
  simp only [okOr, Value.asStr, bind, Except.bind, ne_eq, not_true, if_false, howner, hsig,
    (validateConditions_iff oa.conditions).mpr hconditions, Bool.not_true, Bool.false_eq_true]

/-- The signer takes a tag whose conditions are short enough. -/
theorem loadAuthTag_attestation {k : K} {r : R} {env : Option String}
    {config : Except String (Option String)} (hconditions : validateConditions conditions = .ok ())
    (htext : authTagText env config =
      .ok (some (tagText (attestation X sha256 k r agent conditions).owner conditions
        (attestation X sha256 k r agent conditions).ownerSig))) :
    (conditions.utf8ByteSize ≤ 815 → loadAuthTag X env config =
      .ok (some (attestation X sha256 k r agent conditions))) ∧
    (815 < conditions.utf8ByteSize → ∃ e, loadAuthTag X env config = .error e) := by
  have hwell : (attestation X sha256 k r agent conditions).WellFormed :=
    wellFormed_attestation hconditions
  have hsize : (tagText (attestation X sha256 k r agent conditions).owner conditions
      (attestation X sha256 k r agent conditions).ownerSig).utf8ByteSize =
    209 + conditions.utf8ByteSize := utf8ByteSize_tagText hwell.2.1 hwell.1 hwell.2.2
  have hparse := parseAuthTag_tagText (X := X) hwell
  rw [loadAuthTag_of_text htext hparse, hsize]
  constructor
  · intro hshort
    rw [MAX_AUTH_TAG, if_neg (by omega)]
  · intro hlong
    rw [MAX_AUTH_TAG, if_pos (by omega)]
    exact ⟨_, rfl⟩

/-- The two implementations accept the same conditions, and a tag that one of them computes is
accepted by both, as long as the signer takes a tag of its size. -/
theorem implementations_agree (hX : X.Sound) :
    (∀ s, validateConditions s = .ok () ↔ GitSign.validateConditions s = true) ∧
    ∀ k r agent conditions tag, computeAuthTag X sha256 k r agent conditions = .ok tag →
      (∀ env config, authTagText env config = .ok (some tag) →
        (conditions.utf8ByteSize ≤ 815 → loadAuthTag X env config =
          .ok (some (attestation X sha256 k r agent conditions))) ∧
        (815 < conditions.utf8ByteSize → ∃ e, loadAuthTag X env config = .error e)) ∧
      verifyOa X sha256 agent.toHex (attestation X sha256 k r agent conditions) = true ∧
      verifyAuthTag X sha256 tag agent = .ok (X.publicKey k) ∧
      parseAuthTag X tag = .ok ["auth", (attestation X sha256 k r agent conditions).owner,
        conditions, (attestation X sha256 k r agent conditions).ownerSig] := by
  refine ⟨validateConditions_iff, ?_⟩
  intro k r agent conditions tag htag
  obtain ⟨hself, hconditions, rfl⟩ := computeAuthTag_ok htag
  have hwell : (attestation X sha256 k r agent conditions).WellFormed :=
    wellFormed_attestation hconditions
  refine ⟨?_, verifyOa_attestation hX k r agent conditions,
    verifyAuthTag_attestation hX hself hconditions, parseAuthTag_attestation hwell⟩
  intro env config htext
  exact loadAuthTag_attestation hconditions htext

def agentKey : HexId 64 := HexId.ofNat 64 2

theorem publicKey_ne_agentKey : SignExample.externals.publicKey () ≠ agentKey := by
  decide +kernel

theorem exists_tag (sha256 : ByteArray → HexId 64) (h : validateConditions conditions = .ok ()) :
    ∃ tag, computeAuthTag SignExample.externals sha256 () () agentKey conditions = .ok tag :=
  ⟨_, computeAuthTag_eq publicKey_ne_agentKey h⟩

/-- A tag that is accepted everywhere. -/
theorem implementations_agree_kind : ∃ tag,
    computeAuthTag SignExample.externals Buzz.sha256 () () agentKey "kind=1" = .ok tag ∧
    verifyAuthTag SignExample.externals Buzz.sha256 tag agentKey = .ok SignExample.publicKey := by
  have hvalid : validateConditions "kind=1" = .ok () :=
    (validateConditions_iff "kind=1").mpr (by decide +kernel)
  obtain ⟨tag, htag⟩ := exists_tag Buzz.sha256 hvalid
  have hagree := (@implementations_agree _ _ _ SignExample.externals Buzz.sha256
    SignExample.sound_externals).2 () () agentKey "kind=1" tag htag
  exact ⟨tag, htag, hagree.2.2.1⟩

def kindClause : List Char := ['k', 'i', 'n', 'd', '=', '1']

def longConditions : String :=
  String.ofList (List.intercalate ['&'] (List.replicate 120 kindClause))

theorem validateConditions_long : validateConditions longConditions = .ok () := by
  have hsplit : longConditions.toList.splitOn '&' = List.replicate 120 kindClause := by
    rw [longConditions, String.toList_ofList]
    apply List.splitOn_intercalate
    · intro clause hclause
      rw [List.eq_of_mem_replicate hclause]
      decide
    · exact List.cons_ne_nil _ _
  rw [validateConditions_iff, GitSign.validateConditions, hsplit, List.all_replicate]
  have hclause : GitSign.validateClause kindClause = true := by decide +kernel
  rw [hclause, Bool.or_eq_true]
  exact .inr rfl

theorem utf8ByteSize_long : 815 < longConditions.utf8ByteSize := by
  have hlength : longConditions.toList.length = 839 := by
    rw [longConditions, String.toList_ofList]
    decide +kernel
  have hle := length_le_utf8ByteSize longConditions
  omega

theorem authTagText_some {text : String} (h : text ≠ "") :
    authTagText (some text) (.ok none) = .ok (some text) := by
  have hpresent : Option.filter (· ≠ "") (some text) = some text :=
    Option.filter_some_pos (decide_eq_true h)
  rw [authTagText, hpresent]

theorem exists_long_tag (sha256 : ByteArray → HexId 64) : ∃ tag,
    computeAuthTag SignExample.externals sha256 () () agentKey longConditions = .ok tag ∧
    ∃ e, loadAuthTag SignExample.externals (some tag) (.ok none) = .error e := by
  obtain ⟨tag, htag⟩ := exists_tag sha256 validateConditions_long
  obtain ⟨-, hconditions, rfl⟩ := computeAuthTag_ok htag
  exact ⟨_, htag, (loadAuthTag_attestation hconditions
    (authTagText_some (tagText_ne_empty _ _ _))).2 utf8ByteSize_long⟩

/-- A tag with long conditions is too long for the signer. -/
theorem loadAuthTag_rejects_long : ∃ tag,
    computeAuthTag SignExample.externals Buzz.sha256 () () agentKey longConditions = .ok tag ∧
    ∃ e, loadAuthTag SignExample.externals (some tag) (.ok none) = .error e :=
  exists_long_tag Buzz.sha256

end Buzz.Sdk
