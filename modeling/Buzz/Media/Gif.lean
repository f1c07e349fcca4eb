import Buzz.Media.Jpeg

namespace Buzz.Media
set_option autoImplicit true

/-- The bytes of the colour table that packed fields announce. -/
def tableLen (packed : UInt8) : ℕ :=
  if packed &&& 0x80 ≠ 0 then 3 <<< ((packed &&& 0x07).toNat + 1) else 0

/-- The position behind the table at a position. -/
def skipTable (b : List UInt8) (i : ℕ) (packed : UInt8) : Except (Fault MediaError) ℕ :=
  if packed &&& 0x80 ≠ 0 then
    if b.length < i + tableLen packed then .error (.error .invalidImage)
    else .ok (i + tableLen packed)
  else .ok i

def subBlockStep (b : List UInt8) (i : ℕ) (s : Unit) : Except (Fault MediaError) (Step Unit ℕ) :=
  match b[i]? with
  | none => .error (.error .invalidImage)
  | some len =>
    if len = 0 then .ok (.stop (i + 1))
    else if b.length < i + 1 + len.toNat then .error (.error .invalidImage)
    else .ok (.next (i + 1 + len.toNat) s)

def skipSubBlocks (b : List UInt8) (i : ℕ) : Except (Fault MediaError) ℕ :=
  walk (subBlockStep b) (b.length + 1) i ()

/-- An image: its descriptor, a table, the size of its codes, and sub-blocks of data. -/
def gifImage (b : List UInt8) (i : ℕ) : Except (Fault MediaError) ℕ :=
  if b.length < i + 10 then .error (.error .invalidImage)
  else do
    let packed ← byteAt b (i + 9)
    let code ← skipTable b (i + 10) packed
    if b.length < code + 1 then .error (.error .invalidImage) else skipSubBlocks b (code + 1)

/-- The extension for rendering, whose label ends at `i`. -/
def gifControl (b : List UInt8) (i : ℕ) : Except (Fault MediaError) ℕ :=
  if b[i]? ≠ some 4 then .error (.error .invalidImage)
  else if b.length < i + 6 then .error (.error .invalidImage)
  else do
    let terminator ← byteAt b (i + 5)
    if terminator ≠ 0 then .error (.error .invalidImage) else .ok (i + 6)

/-- The extension for looping, whose label ends at `i`. -/
def gifLoop (b : List UInt8) (i : ℕ) : Except (Fault MediaError) ℕ :=
  if b[i]? ≠ some 11 ∨ b.length < i + 12 then .error (.error .invalidImage)
  else do
    let app ← slice b (i + 1) (i + 12)
    if app ≠ ascii "NETSCAPE2.0" ∧ app ≠ ascii "ANIMEXTS1.0" then .error (.error .metadataForbidden)
    else if b[i + 12]? ≠ some 3 ∨ b[i + 13]? ≠ some 1 ∨ b[i + 16]? ≠ some 0 then
      .error (.error .metadataForbidden)
    else .ok (i + 17)

def gifStep (b : List UInt8) (i : ℕ) (s : Unit) : Except (Fault MediaError) (Step Unit Unit) :=
  match b[i]? with
  | none => .error (.error .invalidImage)
  | some introducer =>
    if introducer = 0x2c then (gifImage b i).map (.next · s)
    else if introducer = 0x21 then
      match b[i + 1]? with
      | none => .error (.error .invalidImage)
      | some label =>
        if label = 0xf9 then (gifControl b (i + 2)).map (.next · s)
        else if label = 0xff then (gifLoop b (i + 2)).map (.next · s)
        else .error (.error .metadataForbidden)
    else if introducer = 0x3b then
      if i + 1 = b.length then .ok (.stop ()) else .error (.error .metadataForbidden)
    else .error (.error .invalidImage)

def isGifSignature (b : List UInt8) : Bool :=
  (ascii "GIF87a").isPrefixOf b || (ascii "GIF89a").isPrefixOf b

def validateGifMetadataFree (b : List UInt8) : Except (Fault MediaError) Unit :=
  if ! isGifSignature b || b.length < 13 then .error (.error .invalidImage)
  else do
    let packed ← byteAt b 10
    let i ← skipTable b 13 packed
    walk (gifStep b) (b.length + 1) i ()

/-- A block of data, or the empty block behind the last one. -/
structure SubBlock where
  len : UInt8
  data : List UInt8

def subBlocks : Units Unit SubBlock :=
  ⟨fun u => u.len :: u.data, fun _ u => u.data.length = u.len.toNat,
    fun s u => if u.len = 0 then none else some s, fun _ => False⟩

inductive GifBlock where
  | image (descriptor : List UInt8) (packed : UInt8) (table : List UInt8) (code : UInt8)
      (data : List SubBlock)
  | control (fields : List UInt8)
  | loop (app : List UInt8) (low high : UInt8)
  | trailer

namespace GifBlock

def bytes : GifBlock → List UInt8
  | image descriptor packed table code data =>
    0x2c :: (descriptor ++ packed :: (table ++ code :: subBlocks.render data))
  | control fields => 0x21 :: 0xf9 :: 4 :: (fields ++ [0])
  | loop app low high => 0x21 :: 0xff :: 11 :: (app ++ [3, 1, low, high, 0])
  | trailer => [0x3b]

/-- The shape of each kind of block. -/
def Fits : GifBlock → Prop
  | image descriptor packed table _ data =>
    descriptor.length = 8 ∧ table.length = tableLen packed ∧ subBlocks.Path () data
  | control fields => fields.length = 4
  | loop app _ _ => app = ascii "NETSCAPE2.0" ∨ app = ascii "ANIMEXTS1.0"
  | trailer => True

def next (s : Unit) : GifBlock → Option Unit
  | trailer => none
  | _ => some s

theorem bytes_ne_nil (u : GifBlock) : u.bytes ≠ [] := by
  cases u with
  | image descriptor packed table code data => exact List.cons_ne_nil _ _
  | control fields => exact List.cons_ne_nil _ _
  | loop app low high => exact List.cons_ne_nil _ _
  | trailer => exact List.cons_ne_nil _ _

end GifBlock

/-- The blocks of a GIF file. -/
def gif : Units Unit GifBlock :=
  ⟨GifBlock.bytes, fun _ => GifBlock.Fits, GifBlock.next, fun _ => False⟩

section Read

variable {b : List UInt8} {i j : ℕ} {packed : UInt8}

theorem skipTable_ok (h : skipTable b i packed = .ok j) (hi : i ≤ b.length) :
    j ≤ b.length ∧ ∃ table, table.length = tableLen packed ∧ b.drop i = table ++ b.drop j := by
  rw [skipTable] at h
  split at h
  · split at h
    · cases h
    · rename_i hlong
      rw [not_lt] at hlong
      obtain rfl := Except.ok.inj h
      obtain ⟨table, -, hlength, hdrop⟩ := slice_eq (ε := MediaError) (Nat.le_add_right i _) hlong
      exact ⟨hlong, table, by omega, hdrop⟩
  · rename_i hnone
    obtain rfl := Except.ok.inj h
    refine ⟨hi, [], ?_, rfl⟩
    rw [tableLen, if_neg hnone]
    rfl

theorem safe_skipTable (b : List UInt8) (i : ℕ) (packed : UInt8) : Safe (skipTable b i packed) := by
  rw [skipTable]
  split
  · split
    · exact .error _
    · exact .ok _
  · exact .ok _

theorem subBlockStep_next {s s' : Unit} (h : subBlockStep b i s = .ok (.next j s')) :
    ∃ u : SubBlock, u.data.length = u.len.toNat ∧ u.len ≠ 0 ∧
      b.drop i = u.len :: u.data ++ b.drop j := by
  rw [subBlockStep] at h
  split at h
  · cases h
  · rename_i len hlen
    split at h
    · cases h
    split at h
    · cases h
    · rename_i hzero hlong
      rw [not_lt] at hlong
      obtain ⟨rfl, -⟩ := Step.next.inj (Except.ok.inj h)
      obtain ⟨data, -, hlength, hdrop⟩ :=
        slice_eq (ε := MediaError) (Nat.le_add_right (i + 1) _) hlong
      refine ⟨⟨len, data⟩, ?_, hzero, ?_⟩
      · dsimp only
        omega
      · rw [drop_of_getElem? hlen, hdrop]
        rfl

theorem subBlockStep_stop {s : Unit} (h : subBlockStep b i s = .ok (.stop j)) :
    b.drop i = 0 :: b.drop j := by
  rw [subBlockStep] at h
  split at h
  · cases h
  · rename_i len hlen
    split at h
    · rename_i hzero
      obtain rfl := Step.stop.inj (Except.ok.inj h)
      rw [drop_of_getElem? hlen, hzero]
    split at h
    · cases h
    · cases h

theorem skipSubBlocks_ok (h : skipSubBlocks b i = .ok j) :
    ∃ us, subBlocks.Path () us ∧ b.drop i = subBlocks.render us ++ b.drop j := by
  refine walk_sound (P := fun i s j => ∃ us, subBlocks.Path s us ∧
    b.drop i = subBlocks.render us ++ b.drop j) ?_ ?_ h
  · rintro i s i' s' j hstep ⟨us, hpath, hdrop⟩
    obtain ⟨u, hlength, hne, hunit⟩ := subBlockStep_next hstep
    refine ⟨u :: us, .cons hlength (if_neg hne) hpath, ?_⟩
    rw [hunit, hdrop, Units.render_cons, List.append_assoc]
    rfl
  · intro i s j hstep
    refine ⟨[⟨0, []⟩], .last rfl rfl, ?_⟩
    rw [subBlockStep_stop hstep]
    rfl

theorem safe_skipSubBlocks (b : List UInt8) (i : ℕ) : Safe (skipSubBlocks b i) := by
  rw [skipSubBlocks]
  apply Safe.walk (n := b.length)
  · intro i s
    rw [subBlockStep]
    split
    · exact .error _
    split
    · exact .ok _
    split
    · exact .error _
    · exact .ok _
  · intro i s i' s' h
    obtain ⟨u, -, -, hdrop⟩ := subBlockStep_next h
    have hlength := congrArg List.length hdrop
    rw [List.length_append, List.length_cons, List.length_drop, List.length_drop] at hlength
    omega
  · exact Nat.lt_succ_of_le (Nat.sub_le _ _)

theorem gifImage_ok (hintroducer : b[i]? = some 0x2c) (h : gifImage b i = .ok j) :
    ∃ u : GifBlock, u.Fits ∧ u.next () = some () ∧ b.drop i = u.bytes ++ b.drop j := by
  rw [gifImage] at h
  split at h
  · cases h
  rename_i hlong
  rw [not_lt] at hlong
  obtain ⟨packed, hpacked, h⟩ := ok_of_bind h
  obtain ⟨code, hcode, h⟩ := ok_of_bind h
  split at h
  · cases h
  rename_i hcodeLong
  rw [not_lt] at hcodeLong
  obtain ⟨data, hpath, hdata⟩ := skipSubBlocks_ok h
  obtain ⟨descriptor, -, hdescriptor, hdescriptorDrop⟩ := slice_eq (b := b) (i := i + 1) (j := i + 9)
    (ε := MediaError) (by omega) (by omega)
  obtain ⟨-, table, htable, htableDrop⟩ := skipTable_ok hcode hlong
  obtain ⟨size, hsize⟩ : ∃ size, b[code]? = some size :=
    ⟨_, List.getElem?_eq_getElem hcodeLong⟩
  refine ⟨.image descriptor packed table size data, ⟨by omega, htable, hpath⟩, rfl, ?_⟩
  rw [drop_of_getElem? hintroducer, hdescriptorDrop, byteAt_ok hpacked, htableDrop,
    drop_of_getElem? hsize, hdata, GifBlock.bytes]
  simp only [List.cons_append, List.append_assoc]

theorem safe_gifImage (b : List UInt8) (i : ℕ) : Safe (gifImage b i) := by
  rw [gifImage]
  split
  · exact .error _
  · rename_i hlong
    rw [not_lt] at hlong
    apply Safe.bind (.byteAt (by omega))
    intro packed _
    apply Safe.bind (safe_skipTable b _ packed)
    intro code _
    split
    · exact .error _
    · exact safe_skipSubBlocks b _

theorem gifControl_ok (hintroducer : b[i]? = some 0x21) (hlabel : b[i + 1]? = some 0xf9)
    (h : gifControl b (i + 2) = .ok j) :
    ∃ u : GifBlock, u.Fits ∧ u.next () = some () ∧ b.drop i = u.bytes ++ b.drop j := by
  rw [gifControl] at h
  split at h
  · cases h
  rename_i hfour
  rw [not_not] at hfour
  split at h
  · cases h
  rename_i hlong
  rw [not_lt] at hlong
  obtain ⟨terminator, hterminator, h⟩ := ok_of_bind h
  split at h
  · cases h
  rename_i hzero
  rw [not_not] at hzero
  obtain rfl := Except.ok.inj h
  obtain ⟨fields, -, hfields, hdrop⟩ := slice_eq (b := b) (i := i + 3) (j := i + 7)
    (ε := MediaError) (by omega) (by omega)
  refine ⟨.control fields, ?_, rfl, ?_⟩
  · rw [GifBlock.Fits]
    omega
  · rw [drop_of_getElem? hintroducer, drop_of_getElem? hlabel, drop_of_getElem? hfour, hdrop,
      byteAt_ok hterminator, hzero, GifBlock.bytes]
    simp only [List.cons_append, List.append_assoc, List.nil_append]

theorem safe_gifControl (b : List UInt8) (i : ℕ) : Safe (gifControl b i) := by
  rw [gifControl]
  split
  · exact .error _
  split
  · exact .error _
  · rename_i hlong
    rw [not_lt] at hlong
    apply Safe.bind (.byteAt (by omega))
    intro terminator _
    split
    · exact .error _
    · exact .ok _

theorem gifLoop_ok (hintroducer : b[i]? = some 0x21) (hlabel : b[i + 1]? = some 0xff)
    (h : gifLoop b (i + 2) = .ok j) :
    ∃ u : GifBlock, u.Fits ∧ u.next () = some () ∧ b.drop i = u.bytes ++ b.drop j := by
  rw [gifLoop] at h
  split at h
  · cases h
  rename_i heleven
  rw [not_or, not_not, not_lt] at heleven
  obtain ⟨app, happ, h⟩ := ok_of_bind h
  split at h
  · cases h
  rename_i hname
  rw [not_and_or, not_not, not_not] at hname
  split at h
  · cases h
  rename_i hshape
  rw [not_or, not_or, not_not, not_not, not_not] at hshape
  obtain ⟨hthree, hone, hzero⟩ := hshape
  obtain rfl := Except.ok.inj h
  obtain ⟨-, -, hdrop⟩ := slice_ok happ
  obtain ⟨hlt, -⟩ := List.getElem?_eq_some_iff.mp hzero
  have hlow := List.drop_eq_getElem_cons (l := b) (i := i + 16) (by omega)
  have hhigh := List.drop_eq_getElem_cons (l := b) (i := i + 17) (by omega)
  refine ⟨.loop app b[i + 16] b[i + 17], hname, rfl, ?_⟩
  rw [drop_of_getElem? hintroducer, drop_of_getElem? hlabel, drop_of_getElem? heleven.1, hdrop,
    drop_of_getElem? hthree, drop_of_getElem? hone, hlow, hhigh, drop_of_getElem? hzero,
    GifBlock.bytes]
  simp only [List.cons_append, List.append_assoc, List.nil_append]

theorem safe_gifLoop (b : List UInt8) (i : ℕ) : Safe (gifLoop b i) := by
  rw [gifLoop]
  split
  · exact .error _
  · rename_i heleven
    rw [not_or, not_lt] at heleven
    apply Safe.bind (.slice (by omega) heleven.2)
    intro app _
    split
    · exact .error _
    split
    · exact .error _
    · exact .ok _

/-- A round passes over one block. -/
theorem gifStep_next {s s' : Unit} (h : gifStep b i s = .ok (.next j s')) :
    ∃ u : GifBlock, u.Fits ∧ u.next () = some () ∧ b.drop i = u.bytes ++ b.drop j := by
  rw [gifStep] at h
  split at h
  · cases h
  rename_i introducer hintroducer
  split at h
  · rename_i himage
    obtain ⟨k, hk, heq⟩ := ok_of_map h
    obtain ⟨rfl, -⟩ := Step.next.inj heq
    exact gifImage_ok (himage ▸ hintroducer) hk
  split at h
  · rename_i hextension
    rw [hextension] at hintroducer
    split at h
    · cases h
    rename_i label hlabel
    split at h
    · rename_i hcontrol
      obtain ⟨k, hk, heq⟩ := ok_of_map h
      obtain ⟨rfl, -⟩ := Step.next.inj heq
      exact gifControl_ok hintroducer (hcontrol ▸ hlabel) hk
    split at h
    · rename_i hloop
      obtain ⟨k, hk, heq⟩ := ok_of_map h
      obtain ⟨rfl, -⟩ := Step.next.inj heq
      exact gifLoop_ok hintroducer (hloop ▸ hlabel) hk
    · cases h
  split at h
  · split at h
    · cases h
    · cases h
  · cases h

/-- The last round stands at the trailer, with nothing behind it. -/
theorem gifStep_stop {s r : Unit} (h : gifStep b i s = .ok (.stop r)) : b.drop i = [0x3b] := by
  rw [gifStep] at h
  split at h
  · cases h
  rename_i introducer hintroducer
  split at h
  · obtain ⟨k, hk, heq⟩ := ok_of_map h
    cases heq
  split at h
  · split at h
    · cases h
    split at h
    · obtain ⟨k, hk, heq⟩ := ok_of_map h
      cases heq
    split at h
    · obtain ⟨k, hk, heq⟩ := ok_of_map h
      cases heq
    · cases h
  split at h
  · rename_i htrailer
    split at h
    · rename_i hend
      rw [drop_of_getElem? hintroducer, hend, List.drop_length, htrailer]
    · cases h
  · cases h

theorem safe_gifStep (b : List UInt8) (i : ℕ) (s : Unit) : Safe (gifStep b i s) := by
  rw [gifStep]
  split
  · exact .error _
  split
  · exact Safe.map _ (safe_gifImage b i)
  split
  · split
    · exact .error _
    split
    · exact Safe.map _ (safe_gifControl b _)
    split
    · exact Safe.map _ (safe_gifLoop b _)
    · exact .error _
  split
  · split
    · exact .ok _
    · exact .error _
  · exact .error _

theorem gif_reads (b : List UInt8) : gif.Reads b (gifStep b) fun _ => True := by
  constructor
  · intro i s i' s' h
    obtain ⟨u, hfits, hnext, hdrop⟩ := gifStep_next h
    exact ⟨u, hfits, hnext, u.bytes_ne_nil, hdrop⟩
  · intro i s r h _
    refine ⟨[.trailer], .last trivial rfl, ?_⟩
    rw [gifStep_stop h]
    rfl
  · exact safe_gifStep b

end Read

/-- A decomposition of a file into a header, the colour table that it announces, and blocks. -/
def IsGif (us : List GifBlock) (b : List UInt8) : Prop :=
  gif.Path () us ∧ ∃ signature screen packed shape table,
    (signature = ascii "GIF87a" ∨ signature = ascii "GIF89a") ∧ screen.length = 4 ∧
    shape.length = 2 ∧ table.length = tableLen packed ∧
    b = signature ++ (screen ++ packed :: (shape ++ (table ++ gif.render us)))

theorem signature_of_isGifSignature {b : List UInt8} (h : isGifSignature b = true) :
    ∃ signature, (signature = ascii "GIF87a" ∨ signature = ascii "GIF89a") ∧
      b = signature ++ b.drop 6 := by
  rw [isGifSignature, Bool.or_eq_true, List.isPrefixOf_iff_prefix, List.isPrefixOf_iff_prefix] at h
  obtain ⟨rest, rfl⟩ | ⟨rest, rfl⟩ := h
  · exact ⟨_, .inl rfl, rfl⟩
  · exact ⟨_, .inr rfl, rfl⟩

/-- The walk accepts only files of the listed blocks. -/
theorem isGif_of_ok {b : List UInt8} (h : validateGifMetadataFree b = .ok ()) : ∃ us, IsGif us b := by
  rw [validateGifMetadataFree] at h
  split at h
  · cases h
  rename_i hheader
  rw [Bool.or_eq_true, not_or, Bool.not_eq_true', Bool.not_eq_false, decide_eq_true_iff,
    not_lt] at hheader
  obtain ⟨hsignature, hlong⟩ := hheader
  obtain ⟨signature, hsigned, hb⟩ := signature_of_isGifSignature hsignature
  obtain ⟨packed, hpacked, h⟩ := ok_of_bind h
  obtain ⟨i, htable, h⟩ := ok_of_bind h
  obtain ⟨us, hpath, hus⟩ := (gif_reads b).sound h trivial
  obtain ⟨screen, -, hscreen, hscreenDrop⟩ := slice_eq (b := b) (i := 6) (j := 10)
    (ε := MediaError) (by omega) (by omega)
  obtain ⟨shape, -, hshape, hshapeDrop⟩ := slice_eq (b := b) (i := 11) (j := 13)
    (ε := MediaError) (by omega) (by omega)
  obtain ⟨-, table, htableLen, htableDrop⟩ := skipTable_ok htable hlong
  refine ⟨us, hpath, signature, screen, packed, shape, table, hsigned, hscreen, hshape, htableLen, ?_⟩
  rw [← hus, ← htableDrop, ← hshapeDrop, ← byteAt_ok hpacked, ← hscreenDrop]
  exact hb

theorem safe_validateGif (b : List UInt8) : Safe (validateGifMetadataFree b) := by
  rw [validateGifMetadataFree]
  split
  · exact .error _
  · rename_i hheader
    rw [Bool.or_eq_true, not_or, decide_eq_true_iff, not_lt] at hheader
    apply Safe.bind (.byteAt (by omega))
    intro packed _
    apply Safe.bind (safe_skipTable b 13 packed)
    intro i _
    exact (gif_reads b).walk_safe i ()

end Buzz.Media
