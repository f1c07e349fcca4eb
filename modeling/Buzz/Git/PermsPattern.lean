import Buzz.Git.Perms

namespace Buzz.Git.Perms
set_option autoImplicit true

/-- The segments of a ref name stand one by one for those of a pattern. -/
inductive Aligned : List PatternSegment → List (List Char) → Prop where
  | nil : Aligned [] []
  | literal (lit : String) (h : Aligned ps ss) : Aligned (.literal lit :: ps) (lit.toList :: ss)
  | wildcard (segment : List Char) (h : Aligned ps ss) : Aligned (.wildcard :: ps) (segment :: ss)
  | recursive (h : ss ≠ []) : Aligned [.recursiveWildcard] ss

variable {part : List Char} {parts rest : List (List Char)} {segments ps : List PatternSegment}
  {ss : List (List Char)}

def IsLiteral (part : List Char) : Prop :=
  part ≠ [] ∧ ∀ c ∈ part, isLiteralChar c = true

/-- A segment of a pattern, with the segments after it. -/
def IsSegment (part : List Char) (rest : List (List Char)) : Prop :=
  IsLiteral part ∨ part = ['*'] ∨ (part = ['*', '*'] ∧ rest = [])

/-- Each segment is a literal, a `*` or a final `**`. -/
def ValidParts (parts : List (List Char)) : Prop :=
  ∀ before part after, parts = before ++ part :: after → IsSegment part after

def isWildcard (part : List Char) : Bool :=
  part = ['*'] ∨ part = ['*', '*']

def toSegment (part : List Char) : PatternSegment :=
  if part = ['*', '*'] then .recursiveWildcard
  else if part = ['*'] then .wildcard
  else .literal (String.ofList part)

theorem validParts_cons :
    ValidParts (part :: rest) ↔ IsSegment part rest ∧ ValidParts rest := by
  constructor
  · intro h
    refine ⟨h [] part rest rfl, ?_⟩
    intro before p after hsplit
    apply h (part :: before) p after
    rw [hsplit, List.cons_append]
  · rintro ⟨hpart, hrest⟩ before p after hsplit
    cases before with
    | nil =>
      cases hsplit
      exact hpart
    | cons q before =>
      cases hsplit
      exact hrest before p after rfl

theorem not_isLiteral_of_glob {c : Char} (hc : c ∈ part) (hglob : isLiteralChar c = false) :
    ¬IsLiteral part := by
  intro h
  rw [h.2 c hc] at hglob
  cases hglob

/-- A part that the parser takes for a literal. -/
theorem isLiteral_iff : IsLiteral part ↔ part ≠ [] ∧
    ¬(part.contains '*' || part.contains '?' || part.contains '[' || part.contains ']') = true ∧
    part.all isLiteralChar = true := by
  rw [List.all_eq_true]
  constructor
  · intro h
    refine ⟨h.1, ?_, h.2⟩
    simp only [Bool.or_eq_true, List.contains_iff_mem]
    rintro (((hc | hc) | hc) | hc)
    · exact not_isLiteral_of_glob hc (by decide) h
    · exact not_isLiteral_of_glob hc (by decide) h
    · exact not_isLiteral_of_glob hc (by decide) h
    · exact not_isLiteral_of_glob hc (by decide) h
  · rintro ⟨hne, _, hall⟩
    exact ⟨hne, hall⟩

theorem ok_map_iff {x : Except ε (List α)} {a : α} {l : List α} :
    x.map (a :: ·) = .ok l ↔ ∃ tail, x = .ok tail ∧ l = a :: tail := by
  constructor
  · intro h
    obtain ⟨tail, htail, rfl⟩ := ok_of_map h
    exact ⟨tail, htail, rfl⟩
  · rintro ⟨tail, rfl, rfl⟩
    rfl

/-- What the loop of the parser accepts, and what it makes of it. -/
theorem parseSegments_ok_iff {count : Nat} (hcount : count ≤ MAX_WILDCARDS_PER_PATTERN) :
    parseSegments count parts = .ok segments ↔ ValidParts parts ∧
      count + parts.countP isWildcard ≤ MAX_WILDCARDS_PER_PATTERN ∧
      segments = parts.map toSegment := by
  induction parts generalizing count segments with
  | nil =>
    rw [parseSegments]
    constructor
    · rintro ⟨⟩
      exact ⟨fun before part after h => by simp at h, hcount, rfl⟩
    · rintro ⟨_, _, rfl⟩
      rfl
  | cons part rest ih =>
    -- one wildcard more
    have hcounted : ∀ segment, ((if MAX_WILDCARDS_PER_PATTERN < count + 1 then
        .error .tooManyWildcards else (parseSegments (count + 1) rest).map (segment :: ·)) =
          .ok segments) ↔ ValidParts rest ∧
        count + (rest.countP isWildcard + 1) ≤ MAX_WILDCARDS_PER_PATTERN ∧
        segments = segment :: rest.map toSegment := by
      intro segment
      by_cases hmany : MAX_WILDCARDS_PER_PATTERN < count + 1
      · rw [if_pos hmany]
        refine ⟨nofun, fun h => ?_⟩
        omega
      · rw [if_neg hmany, ok_map_iff]
        constructor
        · rintro ⟨tail, htail, rfl⟩
          obtain ⟨hvalid, hle, rfl⟩ := (ih (Nat.le_of_not_lt hmany)).mp htail
          exact ⟨hvalid, by omega, rfl⟩
        · rintro ⟨hvalid, hle, rfl⟩
          exact ⟨_, (ih (Nat.le_of_not_lt hmany)).mpr ⟨hvalid, by omega, rfl⟩, rfl⟩
    rw [validParts_cons, List.map_cons, toSegment, parseSegments]
    by_cases hrec : part = ['*', '*']
    · have hwild : isWildcard part = true := decide_eq_true (.inr hrec)
      have hsegment : IsSegment part rest ↔ rest = [] := by
        rw [hrec, IsSegment]
        simp [isLiteral_iff]
      rw [if_pos hrec, if_pos hrec, List.countP_cons_of_pos hwild, hsegment]
      by_cases hrest : rest = []
      · rw [if_neg (not_not.mpr hrest), hcounted, and_assoc, and_iff_right hrest]
      · rw [if_pos hrest]
        exact ⟨nofun, fun h => absurd h.1.1 hrest⟩
    · rw [if_neg hrec, if_neg hrec]
      by_cases hstar : part = ['*']
      · have hwild : isWildcard part = true := decide_eq_true (.inl hstar)
        have hsegment : IsSegment part rest := .inr (.inl hstar)
        rw [if_pos hstar, if_pos hstar, List.countP_cons_of_pos hwild, hcounted, and_assoc,
          and_iff_right hsegment]
      · have hplain : ¬isWildcard part = true := by
          rw [isWildcard, decide_eq_true_eq, not_or]
          exact ⟨hstar, hrec⟩
        have hsegment : IsSegment part rest ↔ IsLiteral part := by
          rw [IsSegment, or_iff_left]
          rintro (h | h)
          · exact hstar h
          · exact hrec h.1
        rw [if_neg hstar, if_neg hstar, List.countP_cons_of_neg hplain, hsegment, isLiteral_iff]
        by_cases hempty : part = []
        · rw [if_pos hempty]
          exact ⟨nofun, fun h => absurd hempty h.1.1.1⟩
        · rw [if_neg hempty]
          split
          · rename_i hglob
            exact ⟨nofun, fun h => absurd hglob h.1.1.2.1⟩
          · rename_i hglob
            cases hall : part.all isLiteralChar with
            | false => exact ⟨nofun, fun h => absurd h.1.1.2.2 Bool.false_ne_true⟩
            | true =>
              rw [Bool.not_true, if_neg Bool.false_ne_true, ok_map_iff]
              constructor
              · rintro ⟨tail, htail, rfl⟩
                obtain ⟨hvalid, hle, rfl⟩ := (ih hcount).mp htail
                exact ⟨⟨⟨hempty, hglob, rfl⟩, hvalid⟩, hle, rfl⟩
              · rintro ⟨⟨_, hvalid⟩, hle, rfl⟩
                exact ⟨_, (ih hcount).mpr ⟨hvalid, hle, rfl⟩, rfl⟩

theorem aligned_literal_cons {lit : String} {segment : List Char} :
    Aligned (.literal lit :: ps) (segment :: ss) ↔ lit.toList = segment ∧ Aligned ps ss := by
  constructor
  · rintro (_ | ⟨_, h⟩)
    exact ⟨rfl, h⟩
  · rintro ⟨rfl, h⟩
    exact .literal lit h

theorem aligned_wildcard_cons {segment : List Char} :
    Aligned (.wildcard :: ps) (segment :: ss) ↔ Aligned ps ss := by
  constructor
  · rintro (_ | _ | ⟨_, h⟩)
    exact h
  · exact .wildcard segment

theorem segmentsMatch_zip (hps : .recursiveWildcard ∉ ps) (hlen : ss.length = ps.length) :
    segmentsMatch (ps.zip ss) = some true ↔ Aligned ps ss := by
  induction ps generalizing ss with
  | nil =>
    rw [List.length_nil, List.length_eq_zero_iff] at hlen
    subst hlen
    exact ⟨fun _ => .nil, fun _ => rfl⟩
  | cons p ps ih =>
    rw [List.mem_cons, not_or] at hps
    cases ss with
    | nil => cases hlen
    | cons s ss =>
      have hrest := ih hps.2 (Nat.succ.inj hlen)
      rw [List.zip_cons_cons]
      cases p with
      | wildcard => rw [segmentsMatch, hrest, aligned_wildcard_cons]
      | literal lit =>
        rw [segmentsMatch, aligned_literal_cons]
        by_cases hlit : lit.toList = s
        · rw [if_pos hlit, hrest, and_iff_right hlit]
        · rw [if_neg hlit]
          exact ⟨(fun h => by cases h), fun h => absurd h.1 hlit⟩
      | recursiveWildcard => exact absurd rfl hps.1

theorem Aligned.length_eq (h : Aligned ps ss) (hps : .recursiveWildcard ∉ ps) :
    ss.length = ps.length := by
  induction h with
  | nil => rfl
  | literal lit _ ih => exact congrArg Nat.succ (ih fun hmem => hps (List.mem_cons_of_mem _ hmem))
  | wildcard s _ ih => exact congrArg Nat.succ (ih fun hmem => hps (List.mem_cons_of_mem _ hmem))
  | recursive _ => exact absurd List.mem_cons_self hps

/-- A final `**` stands for one segment or more. -/
theorem aligned_append_recursive (hps : .recursiveWildcard ∉ ps) :
    Aligned (ps ++ [.recursiveWildcard]) ss ↔
      ps.length < ss.length ∧ Aligned ps (ss.take ps.length) := by
  induction ps generalizing ss with
  | nil =>
    rw [List.nil_append, List.length_nil, List.length_pos_iff, List.take_zero]
    constructor
    · rintro (_ | _ | _ | h)
      exact ⟨h, .nil⟩
    · rintro ⟨h, _⟩
      exact .recursive h
  | cons p ps ih =>
    rw [List.mem_cons, not_or] at hps
    rw [List.cons_append, List.length_cons]
    cases ss with
    | nil =>
      refine ⟨fun h => ?_, fun h => absurd h.1 (Nat.not_lt_zero _)⟩
      cases p with
      | wildcard => cases h
      | literal lit => cases h
      | recursiveWildcard => exact absurd rfl hps.1
    | cons s ss =>
      rw [List.length_cons, Nat.succ_lt_succ_iff, List.take_succ_cons]
      cases p with
      | wildcard => rw [aligned_wildcard_cons, aligned_wildcard_cons, ih hps.2]
      | literal lit =>
        rw [aligned_literal_cons, aligned_literal_cons, ih hps.2]
        exact and_left_comm
      | recursiveWildcard => exact absurd rfl hps.1

namespace RefPattern

theorem parse_ok_iff {pattern : String} {p : RefPattern} :
    parse pattern = .ok p ↔ pattern.utf8ByteSize ≤ MAX_PATTERN_LENGTH ∧
      "refs/".toList <+: pattern.toList ∧ ValidParts (splitSlash pattern) ∧
      (splitSlash pattern).countP isWildcard ≤ MAX_WILDCARDS_PER_PATTERN ∧ p.raw = pattern ∧
      p.segments = (splitSlash pattern).map toSegment := by
  have hsegments : ∀ segments, parseSegments 0 (splitSlash pattern) = .ok segments ↔
      ValidParts (splitSlash pattern) ∧
        (splitSlash pattern).countP isWildcard ≤ MAX_WILDCARDS_PER_PATTERN ∧
        segments = (splitSlash pattern).map toSegment := by
    intro segments
    rw [parseSegments_ok_iff (Nat.zero_le _), Nat.zero_add]
  rw [parse]
  by_cases hempty : pattern = ""
  · rw [if_pos hempty, hempty]
    exact ⟨nofun, fun h => absurd h.2.1 (by decide)⟩
  · rw [if_neg hempty]
    by_cases hlong : MAX_PATTERN_LENGTH < pattern.utf8ByteSize
    · rw [if_pos hlong]
      exact ⟨nofun, fun h => absurd hlong (Nat.not_lt.mpr h.1)⟩
    · rw [if_neg hlong, ← List.isPrefixOf_iff_prefix]
      by_cases hrefs : "refs/".toList.isPrefixOf pattern.toList = true
      · rw [if_neg (not_not.mpr hrefs)]
        split
        · rename_i e herror
          refine ⟨nofun, fun h => ?_⟩
          have hok := (hsegments _).mpr ⟨h.2.2.1, h.2.2.2.1, rfl⟩
          rw [herror] at hok
          cases hok
        · rename_i segments hok
          obtain ⟨hvalid, hcount, hmap⟩ := (hsegments segments).mp hok
          constructor
          · rintro ⟨⟩
            exact ⟨Nat.le_of_not_lt hlong, hrefs, hvalid, hcount, rfl, hmap⟩
          · rintro ⟨_, _, _, _, hraw, hsegs⟩
            obtain ⟨raw, segments', hlast⟩ := p
            cases hraw
            cases hmap.trans hsegs.symm
            rfl
      · rw [if_pos hrefs]
        exact ⟨nofun, fun h => absurd h.2.1 hrefs⟩

/-- The matcher agrees with the alignment of segments. -/
theorem matches_iff (p : RefPattern) (refName : String) :
    p.matches refName = true ↔ Aligned p.segments (splitSlash refName) := by
  have htry : p.matches refName = true ↔ p.tryMatches refName = some true := by
    rw [Option.eq_some_iff_get_eq, «matches»]
    exact ⟨fun h => ⟨_, h⟩, fun ⟨_, h⟩ => h⟩
  rw [htry, tryMatches]
  dsimp only
  by_cases hlast : p.segments.getLast? = some .recursiveWildcard
  · have hne : p.segments ≠ [] := by
      rintro hnil
      rw [hnil] at hlast
      cases hlast
    have hsplit : p.segments = p.segments.dropLast ++ [.recursiveWildcard] := by
      rw [List.getLast?_eq_some_getLast hne, Option.some.injEq] at hlast
      rw [← hlast, List.dropLast_append_getLast]
    have hlen : p.segments.length - 1 = p.segments.dropLast.length := List.length_dropLast.symm
    have htake : p.segments.take (p.segments.length - 1) = p.segments.dropLast :=
      List.dropLast_eq_take.symm
    have haligned : Aligned p.segments (splitSlash refName) ↔
        p.segments.dropLast.length < (splitSlash refName).length ∧
          Aligned p.segments.dropLast
            ((splitSlash refName).take p.segments.dropLast.length) := by
      rw [← aligned_append_recursive p.recursive_last, ← hsplit]
    rw [if_pos hlast, haligned, htake, hlen]
    by_cases hfew : (splitSlash refName).length ≤ p.segments.dropLast.length
    · rw [if_pos hfew]
      exact ⟨nofun, fun h => absurd hfew (Nat.not_le.mpr h.1)⟩
    · have hlt := Nat.lt_of_not_le hfew
      rw [if_neg hfew, and_iff_right hlt]
      exact segmentsMatch_zip p.recursive_last (List.length_take_of_le hlt.le)
  · have hnone : .recursiveWildcard ∉ p.segments := fun h => p.not_recursive_of_mem hlast h rfl
    rw [if_neg hlast]
    by_cases hlen : (splitSlash refName).length = p.segments.length
    · rw [if_neg (not_not.mpr hlen), segmentsMatch_zip hnone hlen]
    · rw [if_pos hlen]
      exact ⟨nofun, fun h => absurd (h.length_eq hnone) hlen⟩

/-- The parser accepts exactly the patterns of the documented form, and an accepted pattern
matches exactly the ref names whose segments align with its own, without a panic. -/
theorem parse_and_match :
    (∀ pattern : String, (∃ p, parse pattern = .ok p) ↔
      pattern.utf8ByteSize ≤ MAX_PATTERN_LENGTH ∧ "refs/".toList <+: pattern.toList ∧
        ValidParts (splitSlash pattern) ∧
        (splitSlash pattern).countP isWildcard ≤ MAX_WILDCARDS_PER_PATTERN) ∧
    ∀ (pattern : String) (p : RefPattern) (refName : String), parse pattern = .ok p →
      p.segments = (splitSlash pattern).map toSegment ∧
      (p.matches refName = true ↔ Aligned p.segments (splitSlash refName)) ∧
      (p.tryMatches refName).isSome = true := by
  refine ⟨fun pattern => ⟨?_, ?_⟩, ?_⟩
  · rintro ⟨p, hp⟩
    obtain ⟨hsize, hrefs, hvalid, hcount, _⟩ := parse_ok_iff.mp hp
    exact ⟨hsize, hrefs, hvalid, hcount⟩
  · rintro ⟨hsize, hrefs, hvalid, hcount⟩
    have hsegments : parseSegments 0 (splitSlash pattern) =
        .ok ((splitSlash pattern).map toSegment) := by
      apply (parseSegments_ok_iff (Nat.zero_le _)).mpr
      rw [Nat.zero_add]
      exact ⟨hvalid, hcount, rfl⟩
    exact ⟨⟨pattern, _, parseSegments_recursive_last hsegments⟩,
      parse_ok_iff.mpr ⟨hsize, hrefs, hvalid, hcount, rfl, rfl⟩⟩
  · intro pattern p refName hp
    exact ⟨(parse_ok_iff.mp hp).2.2.2.2.2, p.matches_iff refName, p.tryMatches_isSome refName⟩

/-- The branches of a team, at any depth. -/
theorem parse_and_match_branches :
    ∃ p, parse "refs/heads/*/**" = .ok p ∧ p.matches "refs/heads/team/a/b" = true ∧
      p.matches "refs/heads/team" = false := by
  cases hparse : parse "refs/heads/*/**" with
  | error e =>
    have hok : (parse "refs/heads/*/**").toOption.isSome = true := by decide +kernel
    rw [hparse] at hok
    cases hok
  | ok p =>
    obtain ⟨hsegments, hdeep, _⟩ := parse_and_match.2 _ p "refs/heads/team/a/b" hparse
    obtain ⟨_, hshallow, _⟩ := parse_and_match.2 _ p "refs/heads/team" hparse
    have hp : p.segments = [.literal "refs", .literal "heads", .wildcard, .recursiveWildcard] := by
      rw [hsegments]
      decide +kernel
    refine ⟨p, rfl, ?_, ?_⟩
    · rw [hdeep, hp]
      exact .literal "refs" (.literal "heads" (.wildcard _ (.recursive (List.cons_ne_nil _ _))))
    · rw [← Bool.not_eq_true, hshallow, hp]
      rintro (_ | ⟨_, _ | ⟨_, _ | _ | ⟨_, _ | _ | _ | h⟩⟩⟩)
      exact h rfl

end RefPattern

end Buzz.Git.Perms
