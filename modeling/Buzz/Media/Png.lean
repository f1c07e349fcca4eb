import Buzz.Media.Jpeg

namespace Buzz.Media
set_option autoImplicit true

/-- A number of big-endian bytes. -/
def fromBe (bytes : List UInt8) : ℕ :=
  bytes.foldl (fun n x => n * 256 + x.toNat) 0

def PNG_SIGNATURE : List UInt8 :=
  [0x89] ++ ascii "PNG" ++ [0x0d, 0x0a, 0x1a, 0x0a]

def PNG_SNAPSHOT_KEYWORDS : List (List UInt8) :=
  [ascii "buzz_agent_snapshot", ascii "buzz_team_snapshot"]

/-- A keyword, and the NUL behind it. -/
def startsWithKeyword (payload keyword : List UInt8) : Except (Fault MediaError) Bool :=
  if keyword.length < payload.length then do
    let head ← slice payload 0 keyword.length
    if head = keyword then
      let separator ← byteAt payload keyword.length
      .ok (separator == 0)
    else .ok false
  else .ok false

def anyKeyword (payload : List UInt8) : List (List UInt8) → Except (Fault MediaError) Bool
  | [] => .ok false
  | keyword :: keywords => do
    let found ← startsWithKeyword payload keyword
    if found then .ok true else anyKeyword payload keywords

def isSnapshotTextChunk (payload : List UInt8) : Except (Fault MediaError) Bool :=
  anyKeyword payload PNG_SNAPSHOT_KEYWORDS

def isTextOrProfile (kind : List UInt8) : Bool :=
  [ascii "eXIf", ascii "zTXt", ascii "iTXt", ascii "iCCP"].contains kind

def isKnownRendering (kind : List UInt8) : Bool :=
  [ascii "cHRM", ascii "gAMA", ascii "sBIT", ascii "sRGB", ascii "bKGD", ascii "hIST", ascii "tRNS",
    ascii "sPLT", ascii "acTL", ascii "fcTL", ascii "fdAT"].contains kind

def isAncillary (first : UInt8) : Bool :=
  first &&& 0x20 != 0

/-- One chunk. The walk ends with the position behind `IEND`, or without it at the end. -/
def pngStep (b : List UInt8) (i : ℕ) (sawSnapshot : Bool) :
    Except (Fault MediaError) (Step Bool (ℕ × Bool)) :=
  if i < b.length then
    if b.length < i + 12 then .error (.error .invalidImage)
    else do
      let size ← slice b i (i + 4)
      let kind ← slice b (i + 4) (i + 8)
      let stop := i + 12 + fromBe size
      if b.length < stop then .error (.error .invalidImage)
      else if kind = ascii "tEXt" then
        let payload ← slice b (i + 8) (stop - 4)
        let snapshot ← isSnapshotTextChunk payload
        if sawSnapshot || ! snapshot then .error (.error .metadataForbidden)
        else .ok (.next stop true)
      else if isTextOrProfile kind then .error (.error .metadataForbidden)
      else
        let first ← byteAt kind 0
        if isAncillary first && ! isKnownRendering kind then .error (.error .metadataForbidden)
        else if kind = ascii "IEND" then .ok (.stop (stop, true))
        else .ok (.next stop sawSnapshot)
  else .ok (.stop (i, false))

def validatePngMetadataFree (b : List UInt8) : Except (Fault MediaError) Unit :=
  if PNG_SIGNATURE.isPrefixOf b then do
    let (i, sawIend) ← walk (pngStep b) (b.length + 1) PNG_SIGNATURE.length false
    if ! sawIend || i ≠ b.length then .error (.error .metadataForbidden) else .ok ()
  else .error (.error .invalidImage)

structure PngChunk where
  size : List UInt8
  kind : List UInt8
  payload : List UInt8
  crc : List UInt8

/-- A payload of a snapshot starts with a keyword and NUL. -/
def IsSnapshot (payload : List UInt8) : Prop :=
  ∃ keyword ∈ PNG_SNAPSHOT_KEYWORDS, keyword ++ [0] <+: payload

namespace PngChunk

def bytes (u : PngChunk) : List UInt8 :=
  u.size ++ (u.kind ++ (u.payload ++ u.crc))

/-- What the walk lets through. -/
def Passes (sawSnapshot : Bool) (kind payload : List UInt8) : Prop :=
  if kind = ascii "tEXt" then sawSnapshot = false ∧ IsSnapshot payload
  else isTextOrProfile kind = false ∧
    ∀ first, kind.head? = some first → isAncillary first = true → isKnownRendering kind = true

def Fits (sawSnapshot : Bool) (u : PngChunk) : Prop :=
  (u.size.length = 4 ∧ u.kind.length = 4 ∧ u.crc.length = 4) ∧ fromBe u.size = u.payload.length ∧
    Passes sawSnapshot u.kind u.payload

def next (sawSnapshot : Bool) (u : PngChunk) : Option Bool :=
  if u.kind = ascii "tEXt" then some true
  else if u.kind = ascii "IEND" then none
  else some sawSnapshot

theorem bytes_ne_nil {u : PngChunk} (h : u.size.length = 4) : u.bytes ≠ [] := by
  apply List.append_ne_nil_of_left_ne_nil
  apply List.ne_nil_of_length_pos
  rw [h]
  exact Nat.zero_lt_succ 3

end PngChunk

/-- The chunks of a PNG file, where the state tells whether there has been a snapshot. -/
def png : Units Bool PngChunk :=
  ⟨PngChunk.bytes, PngChunk.Fits, PngChunk.next, fun _ => False⟩

section Read

variable {b payload rest : List UInt8} {i : ℕ} {sawSnapshot s' : Bool} {i' : ℕ}

theorem startsWithKeyword_eq (payload keyword : List UInt8) :
    startsWithKeyword payload keyword = .ok (decide (keyword ++ [0] <+: payload)) := by
  rw [startsWithKeyword]
  split
  · rename_i hlong
    obtain ⟨head, hhead, hlength, hdrop⟩ := slice_eq (b := payload) (ε := MediaError)
      (Nat.zero_le keyword.length) hlong.le
    rw [List.drop_zero, List.drop_eq_getElem_cons hlong] at hdrop
    have hbyte : byteAt payload keyword.length =
        (.ok payload[keyword.length] : Except (Fault MediaError) UInt8) := by
      rw [byteAt, List.getElem?_eq_getElem hlong]
    rw [hhead]
    dsimp only [bind, Except.bind]
    split
    · rename_i hkeyword
      rw [hkeyword] at hdrop
      rw [hbyte]
      dsimp only
      congr 1
      rw [Bool.eq_iff_iff, beq_iff_eq, decide_eq_true_iff]
      constructor
      · intro hzero
        rw [hzero] at hdrop
        refine ⟨payload.drop (keyword.length + 1), ?_⟩
        rw [List.append_assoc]
        exact hdrop.symm
      · rintro ⟨more, hmore⟩
        rw [List.append_assoc] at hmore
        have htail := List.append_cancel_left (hmore.trans hdrop)
        exact (List.cons.inj htail).1.symm
    · rename_i hother
      congr 1
      symm
      apply decide_eq_false
      rintro ⟨more, hmore⟩
      rw [List.append_assoc] at hmore
      have hhead := List.append_inj_left (hmore.trans hdrop) (by omega)
      exact hother hhead.symm
  · rename_i hshort
    congr 1
    symm
    apply decide_eq_false
    intro hprefix
    have hle := hprefix.length_le
    rw [List.length_append] at hle
    exact hshort hle

theorem anyKeyword_eq (payload : List UInt8) (keywords : List (List UInt8)) :
    anyKeyword payload keywords =
      .ok (keywords.any fun keyword => decide (keyword ++ [0] <+: payload)) := by
  induction keywords with
  | nil => rfl
  | cons keyword keywords ih =>
    rw [anyKeyword, startsWithKeyword_eq]
    dsimp only [bind, Except.bind]
    rw [List.any_cons, ih]
    split
    · rename_i hfound
      rw [hfound, Bool.true_or]
    · rename_i hfound
      rw [Bool.eq_false_iff.mpr hfound, Bool.false_or]

theorem isSnapshotTextChunk_eq (payload : List UInt8) :
    ∃ snapshot, isSnapshotTextChunk payload = .ok snapshot ∧
      (snapshot = true ↔ IsSnapshot payload) := by
  refine ⟨_, anyKeyword_eq payload PNG_SNAPSHOT_KEYWORDS, ?_⟩
  rw [List.any_eq_true]
  simp only [decide_eq_true_iff, IsSnapshot]

/-- Where a chunk begins and its size is there, the walk lets it through exactly when it passes. -/
theorem pngStep_of_chunk (sawSnapshot : Bool) {u : PngChunk} (hsize : u.size.length = 4) (hkind : u.kind.length = 4)
    (hcrc : u.crc.length = 4) (hlen : fromBe u.size = u.payload.length)
    (h : b.drop i = u.bytes ++ rest) :
    (∃ e, pngStep b i sawSnapshot = .error (.error e) ∧
      ¬ PngChunk.Passes sawSnapshot u.kind u.payload) ∨
    PngChunk.Passes sawSnapshot u.kind u.payload ∧ pngStep b i sawSnapshot =
      .ok (match u.next sawSnapshot with
        | some s' => .next (i + u.bytes.length) s'
        | none => .stop (i + u.bytes.length, true)) := by
  obtain ⟨size, kind, payload, crc⟩ := u
  dsimp only at hsize hkind hcrc hlen ⊢
  have hlength := congrArg List.length h
  have hbytes : (PngChunk.bytes ⟨size, kind, payload, crc⟩).length = 12 + payload.length := by
    simp only [PngChunk.bytes, List.length_append]
    omega
  rw [List.length_append, List.length_drop, hbytes] at hlength
  have hi : i < b.length := by omega
  simp only [PngChunk.bytes, List.append_assoc] at h
  obtain ⟨hsizeAt, hi4, hdrop⟩ := slice_of_drop (j := i + 4) (ε := MediaError) h hi.le (by omega)
  obtain ⟨hkindAt, hi8, hdrop⟩ := slice_of_drop (j := i + 8) (ε := MediaError) hdrop hi4 (by omega)
  obtain ⟨hpayloadAt, -, -⟩ := slice_of_drop (j := i + 12 + payload.length - 4) (ε := MediaError) hdrop
    hi8 (by omega)
  obtain ⟨first, more, hfirst⟩ : ∃ first more, kind = first :: more :=
    List.exists_cons_of_length_pos (by omega)
  have hbyte : byteAt kind 0 = (.ok first : Except (Fault MediaError) UInt8) := by
    rw [hfirst]
    rfl
  have hhead : kind.head? = some first := by
    rw [hfirst]
    rfl
  obtain ⟨snapshot, hsnapshotAt, hsnapshot⟩ := isSnapshotTextChunk_eq payload
  rw [pngStep, if_pos hi, if_neg (by omega), hsizeAt, hkindAt]
  dsimp only [bind, Except.bind]
  rw [hlen, if_neg (by omega), PngChunk.Passes, PngChunk.next, hbytes, ← Nat.add_assoc]
  dsimp only
  by_cases htext : kind = ascii "tEXt"
  · rw [if_pos htext, if_pos htext, if_pos htext, hpayloadAt]
    dsimp only
    rw [hsnapshotAt]
    dsimp only
    cases sawSnapshot with
    | true => exact .inl ⟨_, rfl, fun h => Bool.noConfusion h.1⟩
    | false =>
      cases snapshot with
      | true => exact .inr ⟨⟨rfl, hsnapshot.mp rfl⟩, rfl⟩
      | false => exact .inl ⟨_, rfl, fun h => Bool.noConfusion (hsnapshot.mpr h.2)⟩
  · rw [if_neg htext, if_neg htext, if_neg htext]
    by_cases hprofile : isTextOrProfile kind = true
    · rw [if_pos hprofile]
      exact .inl ⟨_, rfl, fun h => absurd (hprofile.symm.trans h.1) (by decide)⟩
    · rw [if_neg hprofile, hbyte]
      dsimp only
      cases hancillary : isAncillary first && ! isKnownRendering kind with
      | true =>
        rw [Bool.and_eq_true, Bool.not_eq_true'] at hancillary
        refine .inl ⟨_, if_pos rfl, fun h => ?_⟩
        have hknown := h.2 first hhead hancillary.1
        rw [hancillary.2] at hknown
        cases hknown
      | false =>
        have hpasses : ∀ own, kind.head? = some own → isAncillary own = true →
            isKnownRendering kind = true := by
          intro own hown hfirst
          obtain rfl := Option.some.inj (hhead.symm.trans hown)
          rw [hfirst, Bool.true_and, Bool.not_eq_false'] at hancillary
          exact hancillary
        refine .inr ⟨⟨Bool.eq_false_iff.mpr hprofile, hpasses⟩, ?_⟩
        rw [if_neg Bool.false_ne_true]
        by_cases hiend : kind = ascii "IEND"
        · rw [if_pos hiend, if_pos hiend]
        · rw [if_neg hiend, if_neg hiend]

/-- A round reads a chunk, if there is one. -/
theorem pngStep_cases (b : List UInt8) (i : ℕ) (sawSnapshot : Bool) :
    (∃ e, pngStep b i sawSnapshot = .error (.error e)) ∨
    pngStep b i sawSnapshot = .ok (.stop (i, false)) ∨
    ∃ u : PngChunk, (u.size.length = 4 ∧ u.kind.length = 4 ∧ u.crc.length = 4) ∧
      fromBe u.size = u.payload.length ∧
      b.drop i = u.bytes ++ b.drop (i + u.bytes.length) := by
  by_cases hi : i < b.length
  · by_cases hshort : b.length < i + 12
    · refine .inl ⟨.invalidImage, ?_⟩
      rw [pngStep, if_pos hi, if_pos hshort]
    · rw [not_lt] at hshort
      obtain ⟨size, hsizeAt, hsize, hdrop⟩ := slice_eq (b := b) (i := i) (j := i + 4)
        (ε := MediaError) (by omega) (by omega)
      obtain ⟨kind, hkindAt, hkind, hdrop'⟩ := slice_eq (b := b) (i := i + 4) (j := i + 8)
        (ε := MediaError) (by omega) (by omega)
      by_cases hend : b.length < i + 12 + fromBe size
      · refine .inl ⟨.invalidImage, ?_⟩
        rw [pngStep, if_pos hi, if_neg (by omega), hsizeAt, hkindAt]
        dsimp only [bind, Except.bind]
        rw [if_pos hend]
      · rw [not_lt] at hend
        obtain ⟨payload, -, hpayload, hdrop''⟩ := slice_eq (b := b) (i := i + 8)
          (j := i + 8 + fromBe size) (ε := MediaError) (by omega) (by omega)
        obtain ⟨crc, -, hcrc, hdrop'''⟩ := slice_eq (b := b) (i := i + 8 + fromBe size)
          (j := i + 12 + fromBe size) (ε := MediaError) (by omega) (by omega)
        have hlengths : (size.length = 4 ∧ kind.length = 4 ∧ crc.length = 4) ∧
            fromBe size = payload.length := by omega
        refine .inr (.inr ⟨⟨size, kind, payload, crc⟩, hlengths.1, hlengths.2, ?_⟩)
        have hbytes : (PngChunk.bytes ⟨size, kind, payload, crc⟩).length = 12 + fromBe size := by
          simp only [PngChunk.bytes, List.length_append]
          omega
        rw [hbytes, hdrop, hdrop', hdrop'', hdrop''', PngChunk.bytes]
        simp only [List.append_assoc, Nat.add_assoc]
  · refine .inr (.inl ?_)
    rw [pngStep, if_neg hi]

theorem png_reads (b : List UInt8) :
    png.Reads b (pngStep b) fun r => r.2 = true ∧ r.1 = b.length := by
  constructor
  · intro i sawSnapshot i' s' h
    obtain ⟨e, he⟩ | hend | ⟨u, hlengths, hlen, hdrop⟩ := pngStep_cases b i sawSnapshot
    · rw [he] at h
      cases h
    · rw [hend] at h
      cases h
    · obtain ⟨e, he, -⟩ | ⟨hpasses, hstep⟩ :=
        pngStep_of_chunk sawSnapshot hlengths.1 hlengths.2.1 hlengths.2.2 hlen hdrop
      · rw [he] at h
        cases h
      · rw [hstep] at h
        cases hnext : u.next sawSnapshot with
        | none =>
          rw [hnext] at h
          cases h
        | some s =>
          rw [hnext] at h
          obtain ⟨rfl, rfl⟩ := Step.next.inj (Except.ok.inj h)
          exact ⟨u, ⟨hlengths, hlen, hpasses⟩, hnext, PngChunk.bytes_ne_nil hlengths.1, hdrop⟩
  · intro i sawSnapshot r h haccepts
    obtain ⟨e, he⟩ | hend | ⟨u, hlengths, hlen, hdrop⟩ := pngStep_cases b i sawSnapshot
    · rw [he] at h
      cases h
    · rw [hend] at h
      obtain rfl := Step.stop.inj (Except.ok.inj h)
      cases haccepts.1
    · obtain ⟨e, he, -⟩ | ⟨hpasses, hstep⟩ :=
        pngStep_of_chunk sawSnapshot hlengths.1 hlengths.2.1 hlengths.2.2 hlen hdrop
      · rw [he] at h
        cases h
      · rw [hstep] at h
        cases hnext : u.next sawSnapshot with
        | none =>
          rw [hnext] at h
          obtain rfl := Step.stop.inj (Except.ok.inj h)
          refine ⟨[u], .last ⟨hlengths, hlen, hpasses⟩ hnext, ?_⟩
          have hall : i + u.bytes.length = b.length := haccepts.2
          rw [hdrop, hall, List.drop_length]
          rfl
        | some s =>
          rw [hnext] at h
          cases h
  · intro i sawSnapshot
    obtain ⟨e, he⟩ | hend | ⟨u, hlengths, hlen, hdrop⟩ := pngStep_cases b i sawSnapshot
    · rw [he]
      exact .error e
    · rw [hend]
      exact .ok _
    · obtain ⟨e, he, -⟩ | ⟨-, hstep⟩ :=
        pngStep_of_chunk sawSnapshot hlengths.1 hlengths.2.1 hlengths.2.2 hlen hdrop
      · rw [he]
        exact .error e
      · rw [hstep]
        exact .ok _

theorem pngStep_of_fits {u : PngChunk} (hfits : PngChunk.Fits sawSnapshot u)
    (h : b.drop i = u.bytes ++ rest) : pngStep b i sawSnapshot =
      .ok (match u.next sawSnapshot with
        | some s' => .next (i + u.bytes.length) s'
        | none => .stop (i + u.bytes.length, true)) := by
  obtain ⟨⟨hsize, hkind, hcrc⟩, hlen, hpasses⟩ := hfits
  obtain ⟨e, -, hnot⟩ | ⟨-, hstep⟩ := pngStep_of_chunk sawSnapshot hsize hkind hcrc hlen h
  · exact absurd hpasses hnot
  · exact hstep

theorem pngStep_of_next {u : PngChunk} (hfits : PngChunk.Fits sawSnapshot u)
    (hnext : u.next sawSnapshot = some s') (h : b.drop i = u.bytes ++ rest) :
    pngStep b i sawSnapshot = .ok (.next (i + u.bytes.length) s') := by
  rw [pngStep_of_fits hfits h, hnext]

theorem pngStep_of_last {u : PngChunk} (hfits : PngChunk.Fits sawSnapshot u)
    (hnext : u.next sawSnapshot = none) (hi : i ≤ b.length) (h : b.drop i = u.bytes) :
    pngStep b i sawSnapshot = .ok (.stop (b.length, true)) := by
  have hlength := congrArg List.length h
  rw [List.length_drop] at hlength
  have hend : i + u.bytes.length = b.length := by omega
  rw [pngStep_of_fits hfits (h.trans (List.append_nil _).symm), hnext, hend]

/-- The bytes tell which chunk comes. -/
theorem png_code {u v : PngChunk} {x y : List UInt8} (hu : PngChunk.Fits sawSnapshot u)
    (hv : PngChunk.Fits s' v) (h : u.bytes ++ x = v.bytes ++ y) : u = v := by
  obtain ⟨size, kind, payload, crc⟩ := u
  obtain ⟨size', kind', payload', crc'⟩ := v
  obtain ⟨⟨hsize, hkind, hcrc⟩, hlen, -⟩ := hu
  obtain ⟨⟨hsize', hkind', hcrc'⟩, hlen', -⟩ := hv
  simp only [PngChunk.bytes, List.append_assoc] at h
  obtain ⟨rfl, hkinds⟩ := List.append_inj h (hsize.trans hsize'.symm)
  obtain ⟨rfl, hpayloads⟩ := List.append_inj hkinds (hkind.trans hkind'.symm)
  obtain ⟨rfl, hcrcs⟩ := List.append_inj hpayloads (hlen.symm.trans hlen')
  obtain ⟨rfl, -⟩ := List.append_inj hcrcs (hcrc.trans hcrc'.symm)
  rfl

end Read

/-- What the walk over a PNG file accepts. -/
theorem validatePng_iff (b : List UInt8) : validatePngMetadataFree b = .ok () ↔
    ∃ us, png.Path false us ∧ b = PNG_SIGNATURE ++ png.render us := by
  rw [validatePngMetadataFree]
  split
  · rename_i hsignature
    obtain ⟨rest, hrest⟩ := List.isPrefixOf_iff_prefix.mp hsignature
    have hdrop : b.drop PNG_SIGNATURE.length = rest := by
      rw [← hrest, List.drop_left]
    constructor
    · intro h
      obtain ⟨⟨i, sawIend⟩, hwalk, h⟩ := ok_of_bind h
      dsimp only at h
      split at h
      · cases h
      · rename_i hend
        rw [Bool.or_eq_true, not_or, Bool.not_eq_true', Bool.not_eq_false, decide_eq_true_iff,
          not_not] at hend
        obtain ⟨us, hpath, hus⟩ := (png_reads b).sound hwalk hend
        exact ⟨us, hpath, by rw [← hus, hdrop, hrest]⟩
    · rintro ⟨us, hpath, hb⟩
      have hus : b.drop PNG_SIGNATURE.length = png.render us := by
        rw [hb, List.drop_left]
      have hlength : PNG_SIGNATURE.length ≤ b.length := by
        rw [hb, List.length_append]
        exact Nat.le_add_right _ _
      obtain ⟨⟨i, sawIend⟩, hwalk, haccepts⟩ := hpath.complete b (pngStep b)
        (fun r => r.2 = true ∧ r.1 = b.length)
        (fun i s u s' rest (hfits : PngChunk.Fits s u) hnext _ hdrop =>
          ⟨pngStep_of_next hfits hnext hdrop, PngChunk.bytes_ne_nil hfits.1.1⟩)
        (fun i s u hfits hnext hi hdrop => ⟨_, pngStep_of_last hfits hnext hi hdrop, rfl, rfl⟩)
        (fun _ => id) hlength hus (Nat.lt_succ_of_le (Nat.sub_le _ _))
      rw [hwalk]
      obtain ⟨hiend, hend⟩ := haccepts
      dsimp only [bind, Except.bind] at hiend hend ⊢
      rw [hiend, hend]
      exact if_neg fun h => absurd rfl (of_decide_eq_true h)
  · rename_i hsignature
    constructor
    · intro h
      cases h
    · rintro ⟨us, -, rfl⟩
      exact absurd (List.isPrefixOf_iff_prefix.mpr (List.prefix_append _ _)) hsignature

theorem safe_validatePng (b : List UInt8) : Safe (validatePngMetadataFree b) := by
  rw [validatePngMetadataFree]
  split
  · apply Safe.bind ((png_reads b).walk_safe _ false)
    intro r _
    dsimp only
    split
    · exact .error _
    · exact .ok _
  · exact .error _

def isCriticalChunk (kind : List UInt8) : Bool :=
  [ascii "IHDR", ascii "PLTE", ascii "IDAT", ascii "IEND"].contains kind

namespace PngChunk

def isText (u : PngChunk) : Bool :=
  u.kind = ascii "tEXt"

/-- What a file without metadata is made of. -/
def Listed (u : PngChunk) : Prop :=
  isCriticalChunk u.kind = true ∨ isKnownRendering u.kind = true ∨
    (u.kind = ascii "tEXt" ∧ IsSnapshot u.payload)

/-- A critical chunk of an unknown kind. -/
def Unknown (u : PngChunk) : Prop :=
  (∀ first, u.kind.head? = some first → isAncillary first = false) ∧ isCriticalChunk u.kind = false

theorem critical_of_critical {kind : List UInt8} (h : isCriticalChunk kind = true) :
    kind ≠ ascii "tEXt" ∧ ∀ first, kind.head? = some first → isAncillary first = false := by
  have hall : ∀ kind ∈ [ascii "IHDR", ascii "PLTE", ascii "IDAT", ascii "IEND"],
      kind ≠ ascii "tEXt" ∧ ∀ first ∈ kind.head?, isAncillary first = false := by
    decide +kernel
  exact hall kind (List.contains_iff_mem.mp h)

theorem ancillary_of_rendering {kind : List UInt8} (h : isKnownRendering kind = true) :
    ∃ first, kind.head? = some first ∧ isAncillary first = true := by
  have hall : ∀ kind ∈ [ascii "cHRM", ascii "gAMA", ascii "sBIT", ascii "sRGB", ascii "bKGD",
      ascii "hIST", ascii "tRNS", ascii "sPLT", ascii "acTL", ascii "fcTL", ascii "fdAT"],
      ∃ first ∈ kind.head?, isAncillary first = true := by
    decide +kernel
  exact hall kind (List.contains_iff_mem.mp h)

theorem listed_iff {sawSnapshot : Bool} {u : PngChunk} (hfits : Fits sawSnapshot u) :
    u.Listed ↔ ¬ u.Unknown := by
  obtain ⟨⟨-, hkind, -⟩, -, hpasses⟩ := hfits
  obtain ⟨first, more, hfirst⟩ := List.exists_cons_of_length_pos
    (l := u.kind) (hkind.symm ▸ Nat.zero_lt_succ 3)
  have hhead : u.kind.head? = some first := by
    rw [hfirst]
    rfl
  rw [Passes] at hpasses
  constructor
  · rintro (hcritical | hrendering | ⟨htext, -⟩) ⟨hfirst, hunknown⟩
    · rw [hcritical] at hunknown
      cases hunknown
    · obtain ⟨own, hown, hancillary⟩ := ancillary_of_rendering hrendering
      rw [hfirst own hown] at hancillary
      cases hancillary
    · rw [htext] at hfirst
      exact absurd (hfirst _ rfl) (by decide)
  · intro hknown
    split at hpasses
    · rename_i htext
      exact .inr (.inr ⟨htext, hpasses.2⟩)
    · cases hancillary : isAncillary first with
      | true => exact .inr (.inl (hpasses.2 first hhead hancillary))
      | false =>
        left
        by_contra hcritical
        refine hknown ⟨fun own hown => ?_, Bool.eq_false_iff.mpr hcritical⟩
        obtain rfl := Option.some.inj (hhead.symm.trans hown)
        exact hancillary

end PngChunk

/-- After a snapshot there is none, and before it at most one. -/
theorem png_texts {sawSnapshot : Bool} {us : List PngChunk} (h : png.Path sawSnapshot us) :
    (us.filter PngChunk.isText).length ≤ if sawSnapshot then 0 else 1 := by
  induction h with
  | nil hend => cases hend
  | @last sawSnapshot u hfits hnext =>
    have hother : u.isText = false := by
      have hnext : u.next sawSnapshot = none := hnext
      rw [PngChunk.next] at hnext
      split at hnext
      · cases hnext
      · rename_i htext
        exact decide_eq_false htext
    rw [List.filter_singleton, hother]
    exact Nat.zero_le _
  | @cons u sawSnapshot s' us hfits hnext _ ih =>
    have hnext : u.next sawSnapshot = some s' := hnext
    have hpasses : PngChunk.Passes sawSnapshot u.kind u.payload := hfits.2.2
    rw [PngChunk.next] at hnext
    rw [PngChunk.Passes] at hpasses
    by_cases htext : u.kind = ascii "tEXt"
    · rw [if_pos htext] at hnext hpasses
      obtain rfl := Option.some.inj hnext
      rw [hpasses.1, List.filter_cons_of_pos (p := PngChunk.isText) (decide_eq_true htext), List.length_cons]
      exact Nat.succ_le_succ ih
    · rw [if_neg htext] at hnext
      rw [List.filter_cons_of_neg (p := PngChunk.isText) (fun h => htext (of_decide_eq_true h))]
      split at hnext
      · cases hnext
      · obtain rfl := Option.some.inj hnext
        exact ih

/-- A decomposition of a file into chunks. -/
def IsPng (us : List PngChunk) (b : List UInt8) : Prop :=
  png.Path false us ∧ b = PNG_SIGNATURE ++ png.render us

/-- The walk accepts only files with nothing but listed chunks, exactly where no chunk that it passes
over is a critical one of an unknown kind. -/
theorem png_listed_iff (b : List UInt8) :
    (validatePngMetadataFree b = .ok () → ∃ us, IsPng us b ∧ (∀ u ∈ us, u.Listed) ∧
      (us.filter PngChunk.isText).length ≤ 1) ↔
      ∀ us, IsPng us b → ∀ u ∈ us, ¬ u.Unknown := by
  rw [validatePng_iff]
  constructor
  · intro h us hus u hu
    obtain ⟨vs, hvs, hlisted, -⟩ := h ⟨us, hus⟩
    have hsame : us = vs := hus.1.unique (fun _ _ _ _ _ => png_code) (fun _ => id) hvs.1
      (List.append_cancel_left (hus.2.symm.trans hvs.2))
    rw [hsame] at hu hus
    obtain ⟨s, hfits⟩ := hus.1.fits hu
    exact (PngChunk.listed_iff hfits).mp (hlisted u hu)
  · rintro h ⟨us, hus⟩
    refine ⟨us, hus, fun u hu => ?_, png_texts hus.1⟩
    obtain ⟨s, hfits⟩ := hus.1.fits hu
    exact (PngChunk.listed_iff hfits).mpr (h us hus u hu)

end Buzz.Media
