import Buzz.Media.Jpeg

namespace Buzz.Media
set_option autoImplicit true

/-- A number of little-endian bytes. -/
def fromLe (bytes : List UInt8) : ℕ :=
  bytes.foldr (fun x n => x.toNat + 256 * n) 0

/-- The kind of a chunk, the length of its payload, and the position behind it and its padding. -/
def riffHeader (b : List UInt8) (i : ℕ) : Except (Fault MediaError) (List UInt8 × ℕ × ℕ) :=
  if b.length < i + 8 then .error (.error .invalidImage)
  else do
    let kind ← slice b i (i + 4)
    let size ← slice b (i + 4) (i + 8)
    let len := fromLe size
    let stop := i + 8 + (len + len % 2)
    if b.length < stop then .error (.error .invalidImage) else .ok (kind, len, stop)

/-- What a frame has shown after a chunk: the alpha channel, and the image. -/
def frameNext (kind : List UInt8) (sawAlpha sawImage : Bool) :
    Except (Fault MediaError) (Bool × Bool) :=
  if kind = ascii "ALPH" ∧ sawAlpha = false ∧ sawImage = false then .ok (true, sawImage)
  else if kind = ascii "VP8 " ∧ sawImage = false then .ok (sawAlpha, true)
  else if kind = ascii "VP8L" ∧ sawAlpha = false ∧ sawImage = false then .ok (sawAlpha, true)
  else if [ascii "ALPH", ascii "VP8 ", ascii "VP8L"].contains kind then .error (.error .invalidImage)
  else .error (.error .metadataForbidden)

def frameStep (payload : List UInt8) (i : ℕ) (saw : Bool × Bool) :
    Except (Fault MediaError) (Step (Bool × Bool) Bool) :=
  if i < payload.length then do
    let (kind, _, stop) ← riffHeader payload i
    let saw' ← frameNext kind saw.1 saw.2
    .ok (.next stop saw')
  else .ok (.stop saw.2)

def FRAME_HEADER_LEN : ℕ := 16

def validateFramePayload (payload : List UInt8) : Except (Fault MediaError) Unit :=
  if payload.length < FRAME_HEADER_LEN then .error (.error .invalidImage)
  else do
    let sawImage ← walk (frameStep payload) (payload.length + 1) FRAME_HEADER_LEN (false, false)
    if sawImage then .ok () else .error (.error .invalidImage)

def isWebpChunk (kind : List UInt8) : Bool :=
  [ascii "VP8 ", ascii "VP8L", ascii "VP8X", ascii "ALPH", ascii "ANIM", ascii "ANMF"].contains kind

/-- ICC, EXIF or XMP. -/
def announcesMetadata (flags : UInt8) : Bool :=
  flags &&& (0x20 ||| 0x08 ||| 0x04) != 0

/-- What is asked of a chunk besides its kind. -/
def webpPayload (b kind : List UInt8) (i len : ℕ) : Except (Fault MediaError) Unit :=
  if kind = ascii "VP8X" then
    match b[i]? with
    | none => .error (.error .invalidImage)
    | some flags => if announcesMetadata flags then .error (.error .metadataForbidden) else .ok ()
  else if kind = ascii "ANMF" then do
    let payload ← slice b i (i + len)
    validateFramePayload payload
  else .ok ()

def webpStep (b : List UInt8) (i : ℕ) (s : Unit) : Except (Fault MediaError) (Step Unit Unit) :=
  if i < b.length then do
    let (kind, len, stop) ← riffHeader b i
    if ! isWebpChunk kind then .error (.error .metadataForbidden)
    else
      webpPayload b kind (i + 8) len
      .ok (.next stop s)
  else .ok (.stop ())

def validateWebpMetadataFree (b : List UInt8) : Except (Fault MediaError) Unit :=
  if b.length < 12 then .error (.error .invalidImage)
  else do
    let riff ← slice b 0 4
    let webp ← slice b 8 12
    if riff ≠ ascii "RIFF" ∨ webp ≠ ascii "WEBP" then .error (.error .invalidImage)
    else
      let declared ← slice b 4 8
      if fromLe declared + 8 ≠ b.length then .error (.error .metadataForbidden)
      else walk (webpStep b) (b.length + 1) 12 ()

structure RiffChunk where
  kind : List UInt8
  size : List UInt8
  payload : List UInt8
  pad : List UInt8

namespace RiffChunk

def bytes (u : RiffChunk) : List UInt8 :=
  u.kind ++ (u.size ++ (u.payload ++ u.pad))

/-- The size is that of the payload, and the padding makes it even. -/
def Sized (u : RiffChunk) : Prop :=
  u.kind.length = 4 ∧ u.size.length = 4 ∧ fromLe u.size = u.payload.length ∧
    u.pad.length = u.payload.length % 2

theorem Sized.bytes_ne_nil {u : RiffChunk} (h : u.Sized) : u.bytes ≠ [] := by
  apply List.append_ne_nil_of_left_ne_nil
  apply List.ne_nil_of_length_pos
  rw [h.1]
  exact Nat.zero_lt_succ 3

def isAlpha (u : RiffChunk) : Bool :=
  u.kind = ascii "ALPH"

def isImage (u : RiffChunk) : Bool :=
  u.kind = ascii "VP8 " ∨ u.kind = ascii "VP8L"

/-- A chunk of a frame: alpha before the image and once, the image once. -/
def FitsFrame (saw : Bool × Bool) (u : RiffChunk) : Prop :=
  u.Sized ∧ saw.2 = false ∧ (u.isAlpha = true ∧ saw.1 = false ∨ u.isImage = true)

def nextInFrame (saw : Bool × Bool) (u : RiffChunk) : Option (Bool × Bool) :=
  if u.isAlpha then some (true, saw.2) else some (saw.1, true)

end RiffChunk

/-- The chunks of a frame, which end once there has been an image. -/
def frame : Units (Bool × Bool) RiffChunk :=
  ⟨RiffChunk.bytes, RiffChunk.FitsFrame, RiffChunk.nextInFrame, fun saw => saw.2 = true⟩

/-- A frame: its header, at most one alpha channel, and one image. -/
def IsFrame (payload : List UInt8) : Prop :=
  ∃ header us, header.length = FRAME_HEADER_LEN ∧ payload = header ++ frame.render us ∧
    (∀ u ∈ us, u.Sized ∧ (u.isAlpha = true ∨ u.isImage = true)) ∧
    (us.filter RiffChunk.isAlpha).length ≤ 1 ∧ (us.filter RiffChunk.isImage).length = 1

/-- A chunk that carries no metadata. -/
def RiffChunk.Listed (u : RiffChunk) : Prop :=
  isWebpChunk u.kind = true ∧
    (u.kind = ascii "VP8X" → ∀ flags, u.payload.head? = some flags → announcesMetadata flags = false) ∧
    (u.kind = ascii "ANMF" → IsFrame u.payload)

/-- The chunks of a WebP file. -/
def webp : Units Unit RiffChunk :=
  ⟨RiffChunk.bytes, fun _ u => u.Sized ∧ u.Listed, fun s _ => some s, fun _ => True⟩

section Read

variable {b payload kind : List UInt8} {i len stop : ℕ}

theorem riffHeader_ok (h : riffHeader b i = .ok (kind, len, stop)) :
    ∃ u : RiffChunk, u.Sized ∧ u.kind = kind ∧ u.payload.length = len ∧
      b.drop i = u.bytes ++ b.drop stop ∧ b.drop (i + 8) = u.payload ++ (u.pad ++ b.drop stop) ∧
      i + 8 + len ≤ b.length := by
  rw [riffHeader] at h
  split at h
  · cases h
  obtain ⟨kind', hkind, h⟩ := ok_of_bind h
  obtain ⟨size, hsize, h⟩ := ok_of_bind h
  dsimp only at h
  split at h
  · cases h
  · rename_i hstop
    rw [not_lt] at hstop
    obtain ⟨rfl, rfl, rfl⟩ : kind' = kind ∧ fromLe size = len ∧
        i + 8 + (fromLe size + fromLe size % 2) = stop := by
      have heq := Except.ok.inj h
      exact ⟨congrArg Prod.fst heq, congrArg (fun p => p.2.1) heq, congrArg (fun p => p.2.2) heq⟩
    obtain ⟨-, hkindLength, hkindDrop⟩ := slice_ok hkind
    obtain ⟨-, hsizeLength, hsizeDrop⟩ := slice_ok hsize
    obtain ⟨payload, -, hpayload, hdrop⟩ := slice_eq (b := b) (i := i + 8)
      (j := i + 8 + fromLe size) (ε := MediaError) (by omega) (by omega)
    obtain ⟨pad, -, hpad, hpadDrop⟩ := slice_eq (b := b) (i := i + 8 + fromLe size)
      (j := i + 8 + (fromLe size + fromLe size % 2)) (ε := MediaError) (by omega) (by omega)
    have hsized : (kind'.length = 4 ∧ size.length = 4) ∧ fromLe size = payload.length ∧
        pad.length = payload.length % 2 := by omega
    refine ⟨⟨kind', size, payload, pad⟩, ⟨hsized.1.1, hsized.1.2, hsized.2⟩, rfl, hsized.2.1.symm,
      ?_, ?_, by omega⟩
    · rw [hkindDrop, hsizeDrop, hdrop, hpadDrop, RiffChunk.bytes]
      simp only [List.append_assoc]
    · rw [hdrop, hpadDrop]

theorem safe_riffHeader (b : List UInt8) (i : ℕ) : Safe (riffHeader b i) := by
  rw [riffHeader]
  split
  · exact .error _
  · rename_i hlong
    rw [not_lt] at hlong
    apply Safe.bind (.slice (by omega) (by omega))
    intro kind _
    apply Safe.bind (.slice (by omega) (by omega))
    intro size _
    dsimp only
    split
    · exact .error _
    · exact .ok _

theorem frameNext_ok {u : RiffChunk} {sawAlpha sawImage : Bool} {saw' : Bool × Bool}
    (hsized : u.Sized) (h : frameNext u.kind sawAlpha sawImage = .ok saw') :
    RiffChunk.FitsFrame (sawAlpha, sawImage) u ∧ u.nextInFrame (sawAlpha, sawImage) = some saw' := by
  have hne : ascii "VP8 " ≠ ascii "ALPH" ∧ ascii "VP8L" ≠ ascii "ALPH" := by decide +kernel
  rw [frameNext] at h
  split at h
  · rename_i halpha
    have hkind : u.isAlpha = true := decide_eq_true halpha.1
    obtain rfl := Except.ok.inj h
    exact ⟨⟨hsized, halpha.2.2, .inl ⟨hkind, halpha.2.1⟩⟩, if_pos hkind⟩
  split at h
  · rename_i himage
    have hother : ¬ u.isAlpha = true :=
      fun hkind => hne.1 (himage.1.symm.trans (of_decide_eq_true hkind))
    obtain rfl := Except.ok.inj h
    exact ⟨⟨hsized, himage.2, .inr (decide_eq_true (.inl himage.1))⟩, if_neg hother⟩
  split at h
  · rename_i himage
    have hother : ¬ u.isAlpha = true :=
      fun hkind => hne.2 (himage.1.symm.trans (of_decide_eq_true hkind))
    obtain rfl := Except.ok.inj h
    exact ⟨⟨hsized, himage.2.2, .inr (decide_eq_true (.inr himage.1))⟩, if_neg hother⟩
  split at h
  · cases h
  · cases h

theorem safe_frameNext (kind : List UInt8) (sawAlpha sawImage : Bool) :
    Safe (frameNext kind sawAlpha sawImage) := by
  rw [frameNext]
  split
  · exact .ok _
  split
  · exact .ok _
  split
  · exact .ok _
  split
  · exact .error _
  · exact .error _

theorem frame_reads (payload : List UInt8) :
    frame.Reads payload (frameStep payload) fun sawImage => sawImage = true := by
  constructor
  · intro i saw i' saw' h
    rw [frameStep] at h
    split at h
    · obtain ⟨⟨kind, len, stop⟩, hheader, h⟩ := ok_of_bind h
      obtain ⟨after, hafter, h⟩ := ok_of_bind h
      obtain ⟨rfl, rfl⟩ := Step.next.inj (Except.ok.inj h)
      obtain ⟨u, hsized, rfl, -, hdrop, -⟩ := riffHeader_ok hheader
      obtain ⟨hfits, hnext⟩ := frameNext_ok hsized hafter
      exact ⟨u, hfits, hnext, hsized.bytes_ne_nil, hdrop⟩
    · cases h
  · intro i saw r h haccepts
    rw [frameStep] at h
    split at h
    · obtain ⟨⟨kind, len, stop⟩, hheader, h⟩ := ok_of_bind h
      obtain ⟨after, hafter, h⟩ := ok_of_bind h
      cases h
    · rename_i hend
      obtain rfl := Step.stop.inj (Except.ok.inj h)
      exact ⟨[], .nil haccepts, List.drop_eq_nil_iff.mpr (not_lt.mp hend)⟩
  · intro i saw
    rw [frameStep]
    split
    · apply Safe.bind (safe_riffHeader payload i)
      intro header _
      apply Safe.bind (safe_frameNext _ _ _)
      intro saw' _
      exact .ok _
    · exact .ok _

/-- How many chunks of either sort come from a state on. -/
theorem frame_counts {saw : Bool × Bool} {us : List RiffChunk} (h : frame.Path saw us) :
    (us.filter RiffChunk.isAlpha).length ≤ (if saw.1 || saw.2 then 0 else 1) ∧
      (us.filter RiffChunk.isImage).length = if saw.2 then 0 else 1 := by
  have hne : ascii "VP8 " ≠ ascii "ALPH" ∧ ascii "VP8L" ≠ ascii "ALPH" := by decide +kernel
  induction h with
  | @nil saw hend =>
    have hend : saw.2 = true := hend
    rw [hend]
    exact ⟨Nat.zero_le _, rfl⟩
  | @last saw u hfits hnext =>
    have hnext : u.nextInFrame saw = none := hnext
    rw [RiffChunk.nextInFrame] at hnext
    split at hnext
    · cases hnext
    · cases hnext
  | @cons u saw saw' us hfits hnext _ ih =>
    obtain ⟨sawAlpha, sawImage⟩ := saw
    obtain ⟨-, hearly, hkind⟩ := hfits
    have hnext : u.nextInFrame (sawAlpha, sawImage) = some saw' := hnext
    dsimp only at hearly hkind ⊢
    rw [RiffChunk.nextInFrame] at hnext
    by_cases halpha : u.isAlpha = true
    · rw [if_pos halpha] at hnext
      obtain rfl := Option.some.inj hnext
      have himage : ¬ u.isImage = true := by
        intro himage
        rcases of_decide_eq_true himage with hvp8 | hvp8l
        · exact hne.1 (hvp8.symm.trans (of_decide_eq_true halpha))
        · exact hne.2 (hvp8l.symm.trans (of_decide_eq_true halpha))
      have hfirst : sawAlpha = false := (hkind.resolve_right himage).2
      rw [List.filter_cons_of_pos halpha, List.filter_cons_of_neg himage, List.length_cons, hfirst,
        hearly]
      rw [hearly] at ih
      exact ⟨Nat.succ_le_succ ih.1, ih.2⟩
    · rw [if_neg halpha] at hnext
      obtain rfl := Option.some.inj hnext
      have himage : u.isImage = true := hkind.resolve_left fun h => halpha h.1
      rw [List.filter_cons_of_neg halpha, List.filter_cons_of_pos himage, List.length_cons, hearly]
      dsimp only at ih
      rw [Bool.or_true] at ih
      exact ⟨ih.1.trans (Nat.zero_le _), congrArg Nat.succ ih.2⟩

theorem isFrame_of_ok (h : validateFramePayload payload = .ok ()) : IsFrame payload := by
  rw [validateFramePayload] at h
  split at h
  · cases h
  · rename_i hlong
    obtain ⟨sawImage, hwalk, h⟩ := ok_of_bind h
    split at h
    · rename_i hsaw
      obtain ⟨us, hpath, hus⟩ := (frame_reads payload).sound hwalk hsaw
      obtain ⟨halphas, himages⟩ := frame_counts hpath
      refine ⟨payload.take FRAME_HEADER_LEN, us, ?_, ?_, ?_, halphas, himages⟩
      · rw [List.length_take, min_eq_left (not_lt.mp hlong)]
      · rw [← hus, List.take_append_drop]
      · intro u hu
        obtain ⟨saw, hsized, -, hkind⟩ := hpath.fits hu
        exact ⟨hsized, hkind.imp_left And.left⟩
    · cases h

theorem safe_validateFramePayload (payload : List UInt8) : Safe (validateFramePayload payload) := by
  rw [validateFramePayload]
  split
  · exact .error _
  · apply Safe.bind ((frame_reads payload).walk_safe _ _)
    intro sawImage _
    split
    · exact .ok _
    · exact .error _

theorem safe_webpPayload (kind : List UInt8) (h : i + len ≤ b.length) :
    Safe (webpPayload b kind i len) := by
  rw [webpPayload]
  split
  · split
    · exact .error _
    · split
      · exact .error _
      · exact .ok _
  split
  · apply Safe.bind (.slice (Nat.le_add_right _ _) h)
    intro payload _
    exact safe_validateFramePayload payload
  · exact .ok _

theorem listed_of_webpPayload {u : RiffChunk} {rest : List UInt8} (hdrop : b.drop i = u.payload ++ rest)
    (hlen : u.payload.length = len) (hkind : isWebpChunk u.kind = true)
    (h : webpPayload b u.kind i len = .ok ()) : u.Listed := by
  have hne : ascii "VP8X" ≠ ascii "ANMF" := by decide +kernel
  rw [webpPayload] at h
  refine ⟨hkind, ?_, ?_⟩
  · intro hvp8x flags hflags
    rw [if_pos hvp8x] at h
    have hget : b[i]? = some flags := by
      have hhead : (b.drop i)[0]? = some flags := by
        rw [hdrop, ← List.head?_eq_getElem?, List.head?_append, hflags]
        rfl
      rw [List.getElem?_drop] at hhead
      exact hhead
    rw [hget] at h
    dsimp only at h
    split at h
    · cases h
    · rename_i hclean
      exact Bool.eq_false_iff.mpr hclean
  · intro hanmf
    rw [if_neg fun hvp8x => hne (hvp8x.symm.trans hanmf), if_pos hanmf] at h
    obtain ⟨payload, hslice, h⟩ := ok_of_bind h
    obtain ⟨-, hlength, hsame⟩ := slice_ok hslice
    rw [hdrop] at hsame
    have hpayload : u.payload = payload := List.append_inj_left hsame (by omega)
    rw [hpayload]
    exact isFrame_of_ok h

theorem webp_reads (b : List UInt8) : webp.Reads b (webpStep b) fun _ => True := by
  constructor
  · intro i s i' s' h
    rw [webpStep] at h
    split at h
    · obtain ⟨⟨kind, len, stop⟩, hheader, h⟩ := ok_of_bind h
      dsimp only at h
      split at h
      · cases h
      · rename_i hkind
        obtain ⟨⟨⟩, hpayload, h⟩ := ok_of_bind h
        obtain ⟨rfl, rfl⟩ := Step.next.inj (Except.ok.inj h)
        obtain ⟨u, hsized, rfl, hlen, hdrop, hbehind, -⟩ := riffHeader_ok hheader
        rw [Bool.not_eq_true', Bool.not_eq_false] at hkind
        exact ⟨u, ⟨hsized, listed_of_webpPayload hbehind hlen hkind hpayload⟩, rfl,
          hsized.bytes_ne_nil, hdrop⟩
    · cases h
  · intro i s r h _
    rw [webpStep] at h
    split at h
    · obtain ⟨⟨kind, len, stop⟩, hheader, h⟩ := ok_of_bind h
      dsimp only at h
      split at h
      · cases h
      · obtain ⟨⟨⟩, hpayload, h⟩ := ok_of_bind h
        cases h
    · rename_i hend
      exact ⟨[], .nil trivial, List.drop_eq_nil_iff.mpr (not_lt.mp hend)⟩
  · intro i s
    rw [webpStep]
    split
    · apply Safe.bind (safe_riffHeader b i)
      rintro ⟨kind, len, stop⟩ hheader
      obtain ⟨u, -, -, -, -, -, hlong⟩ := riffHeader_ok hheader
      dsimp only
      split
      · exact .error _
      · apply Safe.bind (safe_webpPayload kind hlong)
        intro _ _
        exact .ok _
    · exact .ok _

end Read

/-- A decomposition of a file into chunks, of the length that the file declares. -/
def IsWebp (us : List RiffChunk) (b : List UInt8) : Prop :=
  webp.Path () us ∧ ∃ size, size.length = 4 ∧ fromLe size + 8 = b.length ∧
    b = ascii "RIFF" ++ (size ++ (ascii "WEBP" ++ webp.render us))

/-- The walk accepts only files of listed chunks. -/
theorem isWebp_of_ok {b : List UInt8} (h : validateWebpMetadataFree b = .ok ()) :
    ∃ us, IsWebp us b ∧ ∀ u ∈ us, u.Listed := by
  rw [validateWebpMetadataFree] at h
  split at h
  · cases h
  obtain ⟨riff, hriff, h⟩ := ok_of_bind h
  obtain ⟨name, hname, h⟩ := ok_of_bind h
  split at h
  · cases h
  rename_i hmagic
  rw [not_or, not_not, not_not] at hmagic
  obtain ⟨size, hsize, h⟩ := ok_of_bind h
  split at h
  · cases h
  rename_i hdeclared
  rw [not_not] at hdeclared
  obtain ⟨us, hpath, hus⟩ := (webp_reads b).sound h trivial
  obtain ⟨-, -, hriffDrop⟩ := slice_ok hriff
  obtain ⟨-, hsizeLength, hsizeDrop⟩ := slice_ok hsize
  obtain ⟨-, -, hnameDrop⟩ := slice_ok hname
  refine ⟨us, ⟨hpath, size, hsizeLength, hdeclared, ?_⟩, fun u hu => ?_⟩
  · rw [← hus, ← hmagic.1, ← hmagic.2, ← hnameDrop, ← hsizeDrop, ← hriffDrop, List.drop_zero]
  · obtain ⟨_, -, hlisted⟩ := hpath.fits hu
    exact hlisted

theorem safe_validateWebp (b : List UInt8) : Safe (validateWebpMetadataFree b) := by
  rw [validateWebpMetadataFree]
  split
  · exact .error _
  · rename_i hlong
    rw [not_lt] at hlong
    apply Safe.bind (.slice (by omega) (by omega))
    intro riff _
    apply Safe.bind (.slice (by omega) (by omega))
    intro name _
    split
    · exact .error _
    · apply Safe.bind (.slice (by omega) (by omega))
      intro declared _
      split
      · exact .error _
      · exact (webp_reads b).walk_safe 12 ()

end Buzz.Media
