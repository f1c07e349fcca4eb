import Buzz.Lib.Units

namespace Buzz.Media
set_option autoImplicit true

inductive MediaError where
  | invalidImage
  | metadataForbidden

/-- A text of ASCII, in bytes. -/
def ascii (s : String) : List UInt8 :=
  s.toList.map fun c => c.toNat.toUInt8

/-- The position behind the `0xff` that stand from a position on. -/
def skipFill (b : List UInt8) (i : ℕ) : ℕ :=
  i + ((b.drop i).takeWhile (· == 0xff)).length

def isStandalone (marker : UInt8) : Bool :=
  (0xd0 ≤ marker && marker ≤ 0xd7) || marker == 0x01

def isMetadataMarker (marker : UInt8) : Bool :=
  (0xe1 ≤ marker && marker ≤ 0xed) || marker == 0xef || marker == 0xfe

/-- The JFIF header and its thumbnail, and nothing else. -/
def canonicalJfif (payload : List UInt8) : Except (Fault MediaError) Bool :=
  if payload.length < 14 then .ok false
  else do
    let name ← slice payload 0 5
    if name ≠ ascii "JFIF" ++ [0] then .ok false
    else
      let width ← byteAt payload 12
      let height ← byteAt payload 13
      .ok (payload.length = 14 + 3 * width.toNat * height.toNat)

def canonicalAdobe (payload : List UInt8) : Except (Fault MediaError) Bool :=
  if payload.length ≠ 12 then .ok false
  else do
    let name ← slice payload 0 5
    .ok (name = ascii "Adobe")

/-- Whether a segment from `i` to `stop` may stand under its marker. -/
def segmentAllowed (b : List UInt8) (i stop : ℕ) (marker : UInt8) : Except (Fault MediaError) Bool :=
  if marker = 0xe0 then slice b (i + 2) stop >>= canonicalJfif
  else if marker = 0xee then slice b (i + 2) stop >>= canonicalAdobe
  else .ok (! isMetadataMarker marker)

/-- A segment whose marker ends at `i`. -/
def jpegSegment (b : List UInt8) (i : ℕ) (marker : UInt8) :
    Except (Fault MediaError) (Step Bool Unit) :=
  if b.length < i + 2 then .error (.error .invalidImage)
  else do
    let high ← byteAt b i
    let low ← byteAt b (i + 1)
    let len := high.toNat * 256 + low.toNat
    if len < 2 then .error (.error .invalidImage)
    else if b.length < i + len then .error (.error .invalidImage)
    else
      let allowed ← segmentAllowed b i (i + len) marker
      if allowed then .ok (.next (i + len) (marker = 0xda)) else .error (.error .metadataForbidden)

/-- What comes behind a marker that ends at `i`. -/
def jpegMarker (b : List UInt8) (i : ℕ) (inScan : Bool) (marker : UInt8) :
    Except (Fault MediaError) (Step Bool Unit) :=
  if inScan && marker == 0x00 then .ok (.next i inScan)
  else if isStandalone marker then .ok (.next i inScan)
  else if marker = 0xd9 then
    if i = b.length then .ok (.stop ()) else .error (.error .metadataForbidden)
  else if marker = 0xd8 then .error (.error .invalidImage)
  else jpegSegment b i marker

def jpegStep (b : List UInt8) (i : ℕ) (inScan : Bool) : Except (Fault MediaError) (Step Bool Unit) :=
  if i < b.length then do
    let first ← byteAt b i
    if first ≠ 0xff then
      if inScan then .ok (.next (i + 1) inScan) else .error (.error .invalidImage)
    else if b.length ≤ skipFill b i then .error (.error .invalidImage)
    else
      let marker ← byteAt b (skipFill b i)
      jpegMarker b (skipFill b i + 1) inScan marker
  else .error (.error .invalidImage)

def validateJpegMetadataFree (b : List UInt8) : Except (Fault MediaError) Unit :=
  if [0xff, 0xd8].isPrefixOf b then walk (jpegStep b) (b.length + 1) 2 false
  else .error (.error .invalidImage)

/-- What a JPEG file is made of behind its first marker, with the number of fill bytes before each
marker. -/
inductive JpegUnit where
  | entropy (x : UInt8)
  | stuffed (fill : ℕ)
  | standalone (fill : ℕ) (marker : UInt8)
  | segment (fill : ℕ) (marker high low : UInt8) (payload : List UInt8)
  | eoi (fill : ℕ)

def IsJfif (payload : List UInt8) : Prop :=
  14 ≤ payload.length ∧ payload.take 5 = ascii "JFIF" ++ [0] ∧ ∃ width height,
    payload[12]? = some width ∧ payload[13]? = some height ∧
      payload.length = 14 + 3 * width.toNat * height.toNat

def IsAdobe (payload : List UInt8) : Prop :=
  payload.length = 12 ∧ payload.take 5 = ascii "Adobe"

/-- What may stand in a segment. -/
def SegmentAllowed (marker : UInt8) (payload : List UInt8) : Prop :=
  (marker = 0xe0 → IsJfif payload) ∧ (marker = 0xee → IsAdobe payload) ∧
    isMetadataMarker marker = false

namespace JpegUnit

/-- A marker behind its fill bytes, and what follows it. -/
def marked (fill : ℕ) (marker : UInt8) (rest : List UInt8) : List UInt8 :=
  List.replicate (fill + 1) 0xff ++ marker :: rest

def bytes : JpegUnit → List UInt8
  | .entropy x => [x]
  | .stuffed fill => marked fill 0x00 []
  | .standalone fill marker => marked fill marker []
  | .segment fill marker high low payload => marked fill marker (high :: low :: payload)
  | .eoi fill => marked fill 0xd9 []

def Fits (inScan : Bool) : JpegUnit → Prop
  | .entropy x => inScan = true ∧ x ≠ 0xff
  | .stuffed _ => inScan = true
  | .standalone _ marker => isStandalone marker = true
  | .segment _ marker high low payload =>
    (marker ≠ 0xff ∧ (inScan && marker == 0x00) = false ∧ isStandalone marker = false ∧
      marker ≠ 0xd9 ∧ marker ≠ 0xd8) ∧
    high.toNat * 256 + low.toNat = payload.length + 2 ∧ SegmentAllowed marker payload
  | .eoi _ => True

def next (inScan : Bool) : JpegUnit → Option Bool
  | .segment _ marker _ _ _ => some (marker = 0xda)
  | .eoi _ => none
  | _ => some inScan

end JpegUnit

/-- The units of a JPEG file, as far as the walk over them looks, where the state tells whether they
stand in a scan. -/
def jpeg : Units Bool JpegUnit :=
  ⟨JpegUnit.bytes, JpegUnit.Fits, JpegUnit.next, fun _ => False⟩

section Read

variable {b payload rest : List UInt8} {i : ℕ} {marker : UInt8}

theorem skipFill_drop (b : List UInt8) (i : ℕ) :
    ∃ n, skipFill b i = i + n ∧ b.drop i = List.replicate n 0xff ++ b.drop (skipFill b i) ∧
      ∀ x r, b.drop (skipFill b i) = x :: r → x ≠ 0xff := by
  have hfill : (b.drop i).takeWhile (· == 0xff) =
      List.replicate ((b.drop i).takeWhile (· == 0xff)).length 0xff := by
    rw [List.eq_replicate_iff]
    refine ⟨rfl, fun x hx => ?_⟩
    exact eq_of_beq (List.mem_takeWhile_imp (p := (· == 0xff)) hx)
  have hrest : b.drop (skipFill b i) = (b.drop i).dropWhile (· == 0xff) := by
    have hsplit := List.takeWhile_append_dropWhile (p := (· == 0xff)) (l := b.drop i)
    rw [skipFill, ← List.drop_drop]
    nth_rewrite 2 [← hsplit]
    exact List.drop_left
  refine ⟨((b.drop i).takeWhile (· == 0xff)).length, rfl, ?_, ?_⟩
  · rw [← hfill, hrest, List.takeWhile_append_dropWhile]
  · intro x r hx
    rw [hrest] at hx
    have hhead := List.head?_dropWhile_not (· == 0xff) (b.drop i)
    rw [hx] at hhead
    simpa using hhead

theorem skipFill_of_replicate {n : ℕ} (h : b.drop i = List.replicate n 0xff ++ marker :: rest)
    (hmarker : marker ≠ 0xff) : skipFill b i = i + n := by
  have hfill : (b.drop i).takeWhile (· == 0xff) = List.replicate n 0xff := by
    rw [h, List.takeWhile_append_of_pos, List.takeWhile_cons_of_neg, List.append_nil]
    · simpa using hmarker
    · intro x hx
      rw [List.eq_of_mem_replicate hx]
      rfl
  rw [skipFill, hfill, List.length_replicate]

theorem canonicalJfif_iff : canonicalJfif payload = .ok true ↔ IsJfif payload := by
  rw [canonicalJfif, IsJfif]
  split
  · rename_i hshort
    constructor
    · intro h
      cases h
    · intro h
      exact absurd hshort (not_lt.mpr h.1)
  · rename_i hlong
    rw [not_lt] at hlong
    obtain ⟨name, hname, hlength, hdrop⟩ :=
      slice_eq (b := payload) (ε := MediaError) (Nat.zero_le 5) (by omega)
    have htake : payload.take 5 = name := by
      rw [← List.drop_zero (l := payload), hdrop]
      exact List.take_left' hlength
    have hwidth : byteAt payload 12 = (.ok payload[12] : Except (Fault MediaError) UInt8) := by
      rw [byteAt, List.getElem?_eq_getElem]
    have hheight : byteAt payload 13 = (.ok payload[13] : Except (Fault MediaError) UInt8) := by
      rw [byteAt, List.getElem?_eq_getElem]
    rw [hname, htake]
    dsimp only [bind, Except.bind]
    split
    · rename_i hother
      constructor
      · intro h
        cases h
      · intro h
        exact absurd h.2.1 hother
    · rename_i hjfif
      rw [not_not] at hjfif
      rw [hwidth, hheight]
      dsimp only
      rw [Except.ok.injEq, decide_eq_true_iff]
      constructor
      · intro h
        exact ⟨hlong, hjfif, _, _, List.getElem?_eq_getElem _, List.getElem?_eq_getElem _, h⟩
      · rintro ⟨-, -, width, height, hw, hh, h⟩
        have hw' : payload[12] = width :=
          Option.some.inj ((List.getElem?_eq_getElem (by omega)).symm.trans hw)
        have hh' : payload[13] = height :=
          Option.some.inj ((List.getElem?_eq_getElem (by omega)).symm.trans hh)
        rw [hw', hh']
        exact h

theorem canonicalAdobe_iff : canonicalAdobe payload = .ok true ↔ IsAdobe payload := by
  rw [canonicalAdobe, IsAdobe]
  split
  · rename_i hlength
    constructor
    · intro h
      cases h
    · intro h
      exact absurd h.1 hlength
  · rename_i hlength
    rw [not_not] at hlength
    obtain ⟨name, hname, hfive, hdrop⟩ :=
      slice_eq (b := payload) (ε := MediaError) (Nat.zero_le 5) (by omega)
    have htake : payload.take 5 = name := by
      rw [← List.drop_zero (l := payload), hdrop]
      exact List.take_left' hfive
    rw [hname, htake]
    dsimp only [bind, Except.bind]
    rw [Except.ok.injEq, decide_eq_true_iff]
    exact ⟨fun h => ⟨hlength, h⟩, fun h => h.2⟩

theorem segmentAllowed_iff {stop : ℕ}
    (h : slice b (i + 2) stop = (.ok payload : Except (Fault MediaError) (List UInt8))) :
    segmentAllowed b i stop marker = .ok true ↔ SegmentAllowed marker payload := by
  rw [segmentAllowed, SegmentAllowed, h]
  split
  · rename_i hmarker
    subst hmarker
    show canonicalJfif payload = _ ↔ _
    rw [canonicalJfif_iff]
    exact ⟨fun h => ⟨fun _ => h, fun h' => absurd h' (by decide), rfl⟩, fun h => h.1 rfl⟩
  · rename_i happ0
    split
    · rename_i hmarker
      subst hmarker
      show canonicalAdobe payload = _ ↔ _
      rw [canonicalAdobe_iff]
      exact ⟨fun h => ⟨fun h' => absurd h' (by decide), fun _ => h, rfl⟩, fun h => h.2.1 rfl⟩
    · rename_i happ14
      rw [Except.ok.injEq, Bool.not_eq_true']
      exact ⟨fun h => ⟨fun h' => absurd h' happ0, fun h' => absurd h' happ14, h⟩, fun h => h.2.2⟩

variable {inScan s' : Bool} {i' : ℕ}

theorem jpegSegment_next (h : jpegSegment b i marker = .ok (.next i' s')) :
    ∃ high low payload, b.drop i = high :: low :: payload ++ b.drop i' ∧
      high.toNat * 256 + low.toNat = payload.length + 2 ∧ SegmentAllowed marker payload ∧
      s' = decide (marker = 0xda) := by
  rw [jpegSegment] at h
  split at h
  · cases h
  obtain ⟨high, hhigh, h⟩ := ok_of_bind h
  obtain ⟨low, hlow, h⟩ := ok_of_bind h
  dsimp only at h
  split at h
  · cases h
  split at h
  · cases h
  rename_i hlen hend
  rw [not_lt] at hlen hend
  obtain ⟨allowed, hallowed, h⟩ := ok_of_bind h
  split at h
  · rename_i htrue
    subst htrue
    obtain ⟨rfl, rfl⟩ := Step.next.inj (Except.ok.inj h)
    obtain ⟨payload, hpayload, hlength, hdrop⟩ := slice_eq (ε := MediaError)
      (Nat.add_le_add_left hlen i) hend
    refine ⟨high, low, payload, ?_, by omega, (segmentAllowed_iff hpayload).mp hallowed, rfl⟩
    rw [byteAt_ok hhigh, byteAt_ok hlow, hdrop]
    rfl
  · cases h

theorem jpegSegment_of_drop {high low : UInt8} (h : b.drop i = high :: low :: payload ++ rest)
    (hlen : high.toNat * 256 + low.toNat = payload.length + 2)
    (hallowed : SegmentAllowed marker payload) :
    jpegSegment b i marker = .ok (.next (i + 2 + payload.length) (marker = 0xda)) := by
  obtain ⟨hhigh, hi, hdrop⟩ := byteAt_of_drop (ε := MediaError) h
  obtain ⟨hlow, hi', hdrop⟩ := byteAt_of_drop (ε := MediaError) hdrop
  obtain ⟨hslice, hend, -⟩ := slice_of_drop (j := i + (payload.length + 2)) (ε := MediaError) hdrop
    hi' (by omega)
  rw [jpegSegment, if_neg (by omega), hhigh]
  dsimp only [bind, Except.bind]
  rw [hlow]
  dsimp only
  rw [hlen, if_neg (by omega), if_neg (not_lt.mpr hend), (segmentAllowed_iff hslice).mpr hallowed,
    Nat.add_right_comm, ← Nat.add_assoc]
  rfl

theorem safe_canonicalJfif (payload : List UInt8) : Safe (canonicalJfif payload) := by
  rw [canonicalJfif]
  split
  · exact .ok false
  · rename_i hlong
    rw [not_lt] at hlong
    apply Safe.bind (.slice (Nat.zero_le 5) (by omega))
    intro name _
    split
    · exact .ok false
    · exact .bind (.byteAt (by omega)) fun _ _ => .bind (.byteAt (by omega)) fun _ _ => .ok _

theorem safe_canonicalAdobe (payload : List UInt8) : Safe (canonicalAdobe payload) := by
  rw [canonicalAdobe]
  split
  · exact .ok false
  · rename_i hlength
    rw [not_not] at hlength
    exact .bind (.slice (Nat.zero_le 5) (by omega)) fun _ _ => .ok _

theorem safe_jpegSegment (b : List UInt8) (i : ℕ) (marker : UInt8) :
    Safe (jpegSegment b i marker) := by
  rw [jpegSegment]
  split
  · exact .error _
  rename_i hi
  rw [not_lt] at hi
  apply Safe.bind (.byteAt (by omega))
  intro high _
  apply Safe.bind (.byteAt (by omega))
  intro low _
  dsimp only
  split
  · exact .error _
  split
  · exact .error _
  rename_i hlen hend
  rw [not_lt] at hlen hend
  have hslice : Safe (slice b (i + 2) (i + (high.toNat * 256 + low.toNat)) :
      Except (Fault MediaError) (List UInt8)) := .slice (Nat.add_le_add_left hlen i) hend
  apply Safe.bind
  · rw [segmentAllowed]
    split
    · exact .bind hslice fun payload _ => safe_canonicalJfif payload
    · split
      · exact .bind hslice fun payload _ => safe_canonicalAdobe payload
      · exact .ok _
  · intro allowed _
    split
    · exact .ok _
    · exact .error _

/-- What is read behind a marker makes a unit with it, whatever comes before the marker. -/
theorem jpegMarker_next (h : jpegMarker b i inScan marker = .ok (.next i' s'))
    (hmarker : marker ≠ 0xff) (fill : ℕ) :
    ∃ u rest, JpegUnit.Fits inScan u ∧ u.next inScan = some s' ∧
      u.bytes = JpegUnit.marked fill marker rest ∧ b.drop i = rest ++ b.drop i' := by
  rw [jpegMarker] at h
  split at h
  · rename_i hstuffed
    obtain ⟨rfl, rfl⟩ := Step.next.inj (Except.ok.inj h)
    rw [Bool.and_eq_true, beq_iff_eq] at hstuffed
    obtain ⟨hscan, rfl⟩ := hstuffed
    exact ⟨.stuffed fill, [], hscan, rfl, rfl, rfl⟩
  rename_i hstuffed
  split at h
  · rename_i halone
    obtain ⟨rfl, rfl⟩ := Step.next.inj (Except.ok.inj h)
    exact ⟨.standalone fill marker, [], halone, rfl, rfl, rfl⟩
  rename_i halone
  split at h
  · split at h
    · cases h
    · cases h
  rename_i heoi
  split at h
  · cases h
  rename_i hsoi
  obtain ⟨high, low, payload, hdrop, hlen, hallowed, rfl⟩ := jpegSegment_next h
  refine ⟨.segment fill marker high low payload, high :: low :: payload, ⟨⟨hmarker, ?_, ?_, heoi,
    hsoi⟩, hlen, hallowed⟩, rfl, rfl, hdrop⟩
  · exact Bool.eq_false_iff.mpr hstuffed
  · exact Bool.eq_false_iff.mpr halone

theorem jpegMarker_stop (h : jpegMarker b i inScan marker = .ok (.stop ())) :
    marker = 0xd9 ∧ i = b.length := by
  rw [jpegMarker] at h
  split at h
  · cases h
  split at h
  · cases h
  split at h
  · rename_i heoi
    split at h
    · rename_i hend
      exact ⟨heoi, hend⟩
    · cases h
  split at h
  · cases h
  rw [jpegSegment] at h
  split at h
  · cases h
  obtain ⟨high, -, h⟩ := ok_of_bind h
  obtain ⟨low, -, h⟩ := ok_of_bind h
  dsimp only at h
  split at h
  · cases h
  split at h
  · cases h
  obtain ⟨allowed, -, h⟩ := ok_of_bind h
  split at h
  · cases h
  · cases h

/-- A round reads one byte in a scan, or a marker behind its fill bytes. -/
theorem jpegStep_cases {r : Step Bool Unit} (h : jpegStep b i inScan = .ok r) :
    (∃ x, inScan = true ∧ x ≠ 0xff ∧ b.drop i = x :: b.drop (i + 1) ∧ r = .next (i + 1) inScan) ∨
    ∃ fill marker, marker ≠ 0xff ∧
      b.drop i = List.replicate (fill + 1) 0xff ++ marker :: b.drop (skipFill b i + 1) ∧
      jpegMarker b (skipFill b i + 1) inScan marker = .ok r := by
  rw [jpegStep] at h
  split at h
  · obtain ⟨first, hfirst, h⟩ := ok_of_bind h
    have hdrop := byteAt_ok hfirst
    split at h
    · rename_i hentropy
      split at h
      · rename_i hscan
        exact .inl ⟨first, hscan, hentropy, hdrop, (Except.ok.inj h).symm⟩
      · cases h
    · rename_i hfill
      rw [not_not] at hfill
      subst hfill
      split at h
      · cases h
      obtain ⟨marker, hmarker, h⟩ := ok_of_bind h
      obtain ⟨n, -, hsplit, hother⟩ := skipFill_drop b i
      have hne : marker ≠ 0xff := hother marker _ (byteAt_ok hmarker)
      cases n with
      | zero =>
        rw [List.replicate_zero, List.nil_append, hdrop] at hsplit
        exact absurd rfl (hother 0xff _ hsplit.symm)
      | succ n =>
        rw [byteAt_ok hmarker] at hsplit
        exact .inr ⟨n, marker, hne, hsplit, h⟩
  · cases h

theorem jpeg_reads (b : List UInt8) : jpeg.Reads b (jpegStep b) fun _ => True := by
  refine ⟨fun i inScan i' s' h => ?_, fun i inScan r h _ => ?_, fun i inScan => ?_⟩
  · obtain ⟨x, hscan, hx, hdrop, hnext⟩ | ⟨fill, marker, hmarker, hdrop, hread⟩ := jpegStep_cases h
    · obtain ⟨rfl, rfl⟩ := Step.next.inj hnext
      exact ⟨.entropy x, ⟨hscan, hx⟩, rfl, List.cons_ne_nil _ _, hdrop⟩
    · obtain ⟨u, rest, hfits, hnext, hbytes, hrest⟩ := jpegMarker_next hread hmarker fill
      have hbytes : jpeg.bytes u = JpegUnit.marked fill marker rest := hbytes
      refine ⟨u, hfits, hnext, ?_, ?_⟩
      · rw [hbytes]
        exact List.append_ne_nil_of_right_ne_nil _ (List.cons_ne_nil _ _)
      · rw [hdrop, hrest, hbytes, JpegUnit.marked, List.append_assoc, List.cons_append]
  · obtain ⟨x, -, -, -, hnext⟩ | ⟨fill, marker, hmarker, hdrop, hread⟩ := jpegStep_cases h
    · cases hnext
    · obtain ⟨rfl, hend⟩ := jpegMarker_stop hread
      refine ⟨[.eoi fill], .last trivial rfl, ?_⟩
      rw [hdrop, hend, List.drop_length]
      exact (List.append_nil _).symm
  · rw [jpegStep]
    split
    · rename_i hi
      apply Safe.bind (.byteAt hi)
      intro first _
      split
      · split
        · exact .ok _
        · exact .error _
      · split
        · exact .error _
        · rename_i hfill
          apply Safe.bind (.byteAt (not_le.mp hfill))
          intro marker _
          rw [jpegMarker]
          split
          · exact .ok _
          split
          · exact .ok _
          split
          · split
            · exact .ok _
            · exact .error _
          split
          · exact .error _
          · exact safe_jpegSegment b _ marker
    · exact .error _

/-- A marker behind its fill bytes is read as it was written. -/
theorem jpegStep_of_marked (inScan : Bool) {fill : ℕ}
    (h : b.drop i = JpegUnit.marked fill marker rest)
    (hmarker : marker ≠ 0xff) :
    jpegStep b i inScan = jpegMarker b (i + (fill + 2)) inScan marker ∧
      i + (fill + 2) ≤ b.length ∧ b.drop (i + (fill + 2)) = rest := by
  have hskip := skipFill_of_replicate h hmarker
  have hlength := congrArg List.length h
  rw [JpegUnit.marked, List.length_append, List.length_replicate, List.length_drop,
    List.length_cons] at hlength
  have hmarkerAt : b.drop (skipFill b i) = marker :: rest := by
    rw [hskip, ← List.drop_drop, h, JpegUnit.marked]
    exact List.drop_left' (List.length_replicate ..)
  obtain ⟨hbyte, hlt, hrest⟩ := byteAt_of_drop (ε := MediaError) hmarkerAt
  have hfirst : b.drop i = 0xff :: (List.replicate fill 0xff ++ marker :: rest) := h
  obtain ⟨hff, hi', -⟩ := byteAt_of_drop (ε := MediaError) hfirst
  have hpos : skipFill b i + 1 = i + (fill + 2) := by omega
  refine ⟨?_, by omega, ?_⟩
  · rw [jpegStep, if_pos hi', hff]
    dsimp only [bind, Except.bind]
    rw [if_neg (not_not.mpr rfl), if_neg (not_le.mpr hlt), hbyte]
    dsimp only
    rw [hpos]
  · rw [← hpos]
    exact hrest

theorem length_marked (fill : ℕ) (marker : UInt8) (rest : List UInt8) :
    (JpegUnit.marked fill marker rest).length = fill + 2 + rest.length := by
  rw [JpegUnit.marked, List.length_append, List.length_replicate, List.length_cons]
  omega

theorem marked_append (fill : ℕ) (marker : UInt8) (rest more : List UInt8) :
    JpegUnit.marked fill marker rest ++ more = JpegUnit.marked fill marker (rest ++ more) := by
  rw [JpegUnit.marked, List.append_assoc]
  rfl

theorem jpegStep_of_fits {u : JpegUnit} (hfits : JpegUnit.Fits inScan u)
    (hnext : u.next inScan = some s') (h : b.drop i = u.bytes ++ rest) :
    jpegStep b i inScan = .ok (.next (i + u.bytes.length) s') := by
  cases u with
  | entropy x =>
    obtain ⟨hscan, hx⟩ := hfits
    obtain ⟨hbyte, hlt, -⟩ := byteAt_of_drop (ε := MediaError) h
    rw [jpegStep, if_pos hlt, hbyte]
    dsimp only [bind, Except.bind]
    rw [if_pos hx, if_pos hscan, ← Option.some.inj hnext]
    rfl
  | stuffed fill =>
    rw [JpegUnit.bytes, marked_append] at h
    obtain ⟨hstep, -⟩ := jpegStep_of_marked inScan h (by decide)
    have hstuffed : (inScan && (0x00 : UInt8) == 0x00) = true := by
      rw [show inScan = true from hfits]
      rfl
    rw [hstep, jpegMarker, if_pos hstuffed, JpegUnit.bytes, length_marked, ← Option.some.inj hnext]
    rfl
  | standalone fill marker =>
    have halone : isStandalone marker = true := hfits
    have hmarker : marker ≠ 0xff := by
      rintro rfl
      exact absurd halone (by decide)
    have hzero : ¬ (inScan && marker == 0x00) = true := by
      rw [Bool.and_eq_true, beq_iff_eq]
      rintro ⟨-, rfl⟩
      exact absurd halone (by decide)
    rw [JpegUnit.bytes, marked_append] at h
    obtain ⟨hstep, -⟩ := jpegStep_of_marked inScan h hmarker
    rw [hstep, jpegMarker, if_neg hzero, if_pos halone, JpegUnit.bytes, length_marked,
      ← Option.some.inj hnext]
    rfl
  | segment fill marker high low payload =>
    obtain ⟨⟨hmarker, hzero, halone, heoi, hsoi⟩, hlen, hallowed⟩ := hfits
    rw [JpegUnit.bytes, marked_append] at h
    obtain ⟨hstep, -, hdrop⟩ := jpegStep_of_marked inScan h hmarker
    rw [hstep, jpegMarker, if_neg (Bool.eq_false_iff.mp hzero),
      if_neg (Bool.eq_false_iff.mp halone), if_neg heoi, if_neg hsoi,
      jpegSegment_of_drop hdrop hlen hallowed, JpegUnit.bytes, length_marked,
      ← Option.some.inj hnext]
    simp only [List.length_cons]
    congr 2
    omega
  | eoi fill => cases hnext

theorem jpegStep_of_last {u : JpegUnit} (hnext : u.next inScan = none) (h : b.drop i = u.bytes) :
    jpegStep b i inScan = .ok (.stop ()) := by
  cases u with
  | eoi fill =>
    have hzero : ¬ (inScan && (0xd9 : UInt8) == 0x00) = true := by
      rw [Bool.and_eq_true, beq_iff_eq]
      rintro ⟨-, h⟩
      exact absurd h (by decide)
    obtain ⟨hstep, hle, hdrop⟩ := jpegStep_of_marked inScan h (by decide)
    have hend : i + (fill + 2) = b.length := le_antisymm hle (List.drop_eq_nil_iff.mp hdrop)
    rw [hstep, jpegMarker, if_neg hzero, if_neg (by decide), if_pos rfl, if_pos hend]
  | entropy x => cases hnext
  | stuffed fill => cases hnext
  | standalone fill marker => cases hnext
  | segment fill marker high low payload => cases hnext

theorem bytes_ne_nil (u : JpegUnit) : u.bytes ≠ [] := by
  cases u with
  | entropy x => exact List.cons_ne_nil x []
  | _ => exact List.append_ne_nil_of_right_ne_nil _ (List.cons_ne_nil _ _)

theorem marked_inj {fill fill' : ℕ} {marker' : UInt8} {rest' : List UInt8} (h : marker ≠ 0xff)
    (h' : marker' ≠ 0xff)
    (heq : JpegUnit.marked fill marker rest = JpegUnit.marked fill' marker' rest') :
    fill = fill' ∧ marker = marker' ∧ rest = rest' := by
  have hskip := skipFill_of_replicate (b := JpegUnit.marked fill marker rest) (i := 0) rfl h
  have hskip' := skipFill_of_replicate (b := JpegUnit.marked fill' marker' rest') (i := 0) rfl h'
  rw [heq, hskip'] at hskip
  obtain rfl : fill = fill' := by omega
  obtain ⟨rfl, rfl⟩ := List.cons.inj (List.append_cancel_left heq)
  exact ⟨rfl, rfl, rfl⟩

def segmentOf (fill : ℕ) (marker : UInt8) : List UInt8 → JpegUnit
  | high :: low :: more =>
    .segment fill marker high low (more.take (high.toNat * 256 + low.toNat - 2))
  | _ => .eoi fill

/-- The unit that a marker starts. -/
def unitOf (inScan : Bool) (fill : ℕ) (marker : UInt8) (rest : List UInt8) : JpegUnit :=
  if inScan && marker == 0x00 then .stuffed fill
  else if isStandalone marker then .standalone fill marker
  else if marker = 0xd9 then .eoi fill
  else segmentOf fill marker rest

theorem unitOf_of_fits {u : JpegUnit} (hfits : JpegUnit.Fits inScan u) :
    (∃ x, u = .entropy x ∧ x ≠ 0xff) ∨ ∃ fill marker rest, marker ≠ 0xff ∧
      u.bytes = JpegUnit.marked fill marker rest ∧
      ∀ more, unitOf inScan fill marker (rest ++ more) = u := by
  cases u with
  | entropy x => exact .inl ⟨x, rfl, hfits.2⟩
  | stuffed fill =>
    refine .inr ⟨fill, 0x00, [], by decide, rfl, fun more => ?_⟩
    have hstuffed : (inScan && (0x00 : UInt8) == 0x00) = true := by
      rw [show inScan = true from hfits]
      rfl
    rw [unitOf, if_pos hstuffed]
  | standalone fill marker =>
    have halone : isStandalone marker = true := hfits
    refine .inr ⟨fill, marker, [], ?_, rfl, fun more => ?_⟩
    · rintro rfl
      exact absurd halone (by decide)
    · have hzero : ¬ (inScan && marker == 0x00) = true := by
        rw [Bool.and_eq_true, beq_iff_eq]
        rintro ⟨-, rfl⟩
        exact absurd halone (by decide)
      rw [unitOf, if_neg hzero, if_pos halone]
  | segment fill marker high low payload =>
    obtain ⟨⟨hmarker, hzero, halone, heoi, -⟩, hlen, -⟩ := hfits
    refine .inr ⟨fill, marker, high :: low :: payload, hmarker, rfl, fun more => ?_⟩
    rw [unitOf, if_neg (Bool.eq_false_iff.mp hzero), if_neg (Bool.eq_false_iff.mp halone),
      if_neg heoi]
    have hpayload : high.toNat * 256 + low.toNat - 2 = payload.length := by omega
    show JpegUnit.segment fill marker high low ((payload ++ more).take _) = _
    rw [hpayload, List.take_left]
  | eoi fill =>
    refine .inr ⟨fill, 0xd9, [], by decide, rfl, fun more => ?_⟩
    have hzero : ¬ (inScan && (0xd9 : UInt8) == 0x00) = true := by
      rw [Bool.and_eq_true, beq_iff_eq]
      rintro ⟨-, h⟩
      exact absurd h (by decide)
    rw [unitOf, if_neg hzero, if_neg (by decide), if_pos rfl]

/-- Within a state, the bytes tell which unit comes. -/
theorem jpeg_code {u v : JpegUnit} {x y : List UInt8} (hu : JpegUnit.Fits inScan u)
    (hv : JpegUnit.Fits inScan v) (h : u.bytes ++ x = v.bytes ++ y) : u = v := by
  obtain ⟨own, rfl, hown⟩ | ⟨fill, marker, rest, hmarker, hbytes, hunit⟩ := unitOf_of_fits hu
  · obtain ⟨other, rfl, -⟩ | ⟨fill', marker', rest', -, hbytes', -⟩ := unitOf_of_fits hv
    · rw [(List.cons.inj h).1]
    · rw [hbytes', marked_append] at h
      exact absurd (List.cons.inj h).1 hown
  · obtain ⟨other, rfl, hother⟩ | ⟨fill', marker', rest', hmarker', hbytes', hunit'⟩ :=
      unitOf_of_fits hv
    · rw [hbytes, marked_append] at h
      exact absurd (List.cons.inj h).1.symm hother
    · rw [hbytes, hbytes', marked_append, marked_append] at h
      obtain ⟨rfl, rfl, hrest⟩ := marked_inj hmarker hmarker' h
      rw [← hunit x, hrest, hunit']

end Read

/-- What the walk over a JPEG file accepts. -/
theorem validateJpeg_iff (b : List UInt8) : validateJpegMetadataFree b = .ok () ↔
    ∃ us, jpeg.Path false us ∧ b = [0xff, 0xd8] ++ jpeg.render us := by
  rw [validateJpegMetadataFree]
  split
  · rename_i hsoi
    obtain ⟨rest, hrest⟩ := List.isPrefixOf_iff_prefix.mp hsoi
    have hdrop : b.drop 2 = rest := by
      rw [← hrest]
      rfl
    constructor
    · intro h
      obtain ⟨us, hpath, hus⟩ := (jpeg_reads b).sound h trivial
      exact ⟨us, hpath, by rw [← hus, hdrop, hrest]⟩
    · rintro ⟨us, hpath, hb⟩
      have hus : b.drop 2 = jpeg.render us := by
        rw [hb]
        rfl
      have hlength : 2 ≤ b.length := by
        rw [hb, List.length_append]
        exact Nat.le_add_right _ _
      obtain ⟨r, hwalk, -⟩ := hpath.complete b (jpegStep b) (fun _ => True)
        (fun i s u s' rest hfits hnext _ hdrop => ⟨jpegStep_of_fits hfits hnext hdrop, bytes_ne_nil u⟩)
        (fun i s u hfits hnext _ hdrop => ⟨(), jpegStep_of_last hnext hdrop, trivial⟩)
        (fun _ => id) hlength hus (Nat.lt_succ_of_le (Nat.sub_le _ _))
      exact hwalk
  · rename_i hsoi
    constructor
    · intro h
      cases h
    · rintro ⟨us, -, rfl⟩
      exact absurd (List.isPrefixOf_iff_prefix.mpr (List.prefix_append _ _)) hsoi

theorem safe_validateJpeg (b : List UInt8) : Safe (validateJpegMetadataFree b) := by
  rw [validateJpegMetadataFree]
  split
  · exact (jpeg_reads b).walk_safe 2 false
  · exact .error _

/-- The frames, the tables, the scans and what goes with them. -/
def isCodingMarker (marker : UInt8) : Bool :=
  (0xc0 ≤ marker && marker ≤ 0xcf && marker != 0xc8) || (0xda ≤ marker && marker ≤ 0xdf)

def isReservedMarker (marker : UInt8) : Bool :=
  marker == 0x00 || (0x02 ≤ marker && marker ≤ 0xbf) || marker == 0xc8 ||
    (0xf0 ≤ marker && marker ≤ 0xfd)

namespace JpegUnit

/-- What a file without metadata is made of: in segments there is coding, or the header of JFIF or of
Adobe. -/
def Listed : JpegUnit → Prop
  | .segment _ marker _ _ payload =>
    isCodingMarker marker = true ∨ (marker = 0xe0 ∧ IsJfif payload) ∨
      (marker = 0xee ∧ IsAdobe payload)
  | _ => True

def Reserved : JpegUnit → Prop
  | .segment _ marker _ _ _ => isReservedMarker marker = true
  | _ => False

end JpegUnit

/-- Every marker of a segment that is read is for coding, is a header, or is reserved. -/
theorem marker_cases (marker : UInt8) : marker ≠ 0xff → isStandalone marker = false →
    marker ≠ 0xd9 → marker ≠ 0xd8 → isMetadataMarker marker = false →
      if marker = 0xe0 ∨ marker = 0xee then isReservedMarker marker = false
      else isCodingMarker marker = ! isReservedMarker marker := by
  have hall : ∀ n : Fin 256, let marker := UInt8.ofNat n
      marker ≠ 0xff → isStandalone marker = false → marker ≠ 0xd9 → marker ≠ 0xd8 →
        isMetadataMarker marker = false →
          if marker = 0xe0 ∨ marker = 0xee then isReservedMarker marker = false
          else isCodingMarker marker = ! isReservedMarker marker := by
    decide +kernel
  have hmarker := hall ⟨marker.toNat, marker.toNat_lt⟩
  rw [UInt8.ofNat_toNat] at hmarker
  exact hmarker

theorem JpegUnit.listed_iff {inScan : Bool} {u : JpegUnit} (hfits : JpegUnit.Fits inScan u) :
    u.Listed ↔ ¬ u.Reserved := by
  cases u with
  | segment fill marker high low payload =>
    obtain ⟨⟨hff, -, halone, heoi, hsoi⟩, -, hjfif, hadobe, hmetadata⟩ := hfits
    have hcases := marker_cases marker hff halone heoi hsoi hmetadata
    rw [Listed, Reserved, Bool.not_eq_true]
    split at hcases
    · rename_i hheader
      refine iff_of_true ?_ hcases
      obtain happ0 | happ14 := hheader
      · exact .inr (.inl ⟨happ0, hjfif happ0⟩)
      · exact .inr (.inr ⟨happ14, hadobe happ14⟩)
    · rename_i hheader
      rw [not_or] at hheader
      rw [hcases, Bool.not_eq_true']
      constructor
      · rintro (hcoding | ⟨happ0, -⟩ | ⟨happ14, -⟩)
        · exact hcoding
        · exact absurd happ0 hheader.1
        · exact absurd happ14 hheader.2
      · exact .inl
  | _ => exact iff_of_true trivial id

/-- A decomposition of a file into units. -/
def IsJpeg (us : List JpegUnit) (b : List UInt8) : Prop :=
  jpeg.Path false us ∧ b = [0xff, 0xd8] ++ jpeg.render us

/-- The walk accepts only files with nothing but listed units, exactly where no unit that it passes
over is a segment with a reserved marker. -/
theorem jpeg_listed_iff (b : List UInt8) :
    (validateJpegMetadataFree b = .ok () → ∃ us, IsJpeg us b ∧ ∀ u ∈ us, u.Listed) ↔
      ∀ us, IsJpeg us b → ∀ u ∈ us, ¬ u.Reserved := by
  rw [validateJpeg_iff]
  constructor
  · intro h us hus u hu
    obtain ⟨vs, hvs, hlisted⟩ := h ⟨us, hus⟩
    have hsame : us = vs := hus.1.unique (fun _ _ _ _ _ => jpeg_code) (fun _ => id) hvs.1
      (List.append_cancel_left (hus.2.symm.trans hvs.2))
    rw [hsame] at hu hus
    obtain ⟨s, hfits⟩ := hus.1.fits hu
    exact (JpegUnit.listed_iff hfits).mp (hlisted u hu)
  · rintro h ⟨us, hus⟩
    refine ⟨us, hus, fun u hu => ?_⟩
    obtain ⟨s, hfits⟩ := hus.1.fits hu
    exact (JpegUnit.listed_iff hfits).mpr (h us hus u hu)

end Buzz.Media
