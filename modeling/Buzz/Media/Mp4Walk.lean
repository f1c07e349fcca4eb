import Buzz.Media.Mp4

namespace Buzz.Media
set_option autoImplicit true

variable {file : File} {box : Mp4Box} {children rest f : Forest Mp4Box}

/-- What a box that the walk reads at an offset is. -/
structure BoxAt (file : File) (off stop : ℕ) (box : Mp4Box) : Prop where
  offset_eq : box.offset = off
  header_pos : 8 ≤ box.header
  header_le : box.header ≤ box.size
  fits : off + box.size ≤ stop
  fits64 : off + box.size < 2 ^ 64
  listed : box.kind ∈ allowed ∧ box.kind ∉ forbidden
  udta : box.kind = ascii "udta" → box.size = box.header + emptyFfmpegUdta.length ∧
    file.readExact (off + box.header) emptyFfmpegUdta.length = some emptyFfmpegUdta
  -- the scan of the top level finds the same box
  scanned : readAtom file off = .atom box.size box.kind ∨
    readAtom file off = .toEnd box.kind ∧ box.size = stop - off

theorem checkKind_ok {off size header : ℕ} {kind : List UInt8}
    (h : checkKind file off size header kind = .ok ()) : (kind ∈ allowed ∧ kind ∉ forbidden) ∧
    (kind = ascii "udta" → size = header + emptyFfmpegUdta.length ∧
      file.readExact (off + header) emptyFfmpegUdta.length = some emptyFfmpegUdta) := by
  rw [checkKind] at h
  by_cases hkind : kind ∈ forbidden ∨ kind ∉ allowed
  · rw [if_pos hkind] at h
    cases h
  · rw [if_neg hkind] at h
    obtain ⟨hforbidden, hallowed⟩ := not_or.mp hkind
    refine ⟨⟨not_not.mp hallowed, hforbidden⟩, ?_⟩
    intro hudta
    rw [if_pos hudta] at h
    by_cases hsize : size ≠ header + emptyFfmpegUdta.length
    · rw [if_pos hsize] at h
      cases h
    · rw [if_neg hsize] at h
      refine ⟨not_not.mp hsize, ?_⟩
      split at h
      · cases h
      · rename_i body hbody
        by_cases hne : body ≠ emptyFfmpegUdta
        · rw [if_pos hne] at h
          cases h
        · rw [hbody, not_not.mp hne]

/-- The two ways to resolve a size agree where the walk accepts it. -/
theorem boxSize_ok {off stop size header : ℕ} {h : List UInt8} (hread : file.readExact off 8 = some h)
    (hsize : boxSize file off stop (fromBe (h.take 4)) = .ok (size, header))
    (hle : header ≤ size) : 8 ≤ header ∧ (readAtom file off = .atom size (h.drop 4) ∨
      readAtom file off = .toEnd (h.drop 4) ∧ size = stop - off) := by
  simp only [readAtom, hread]
  rw [boxSize] at hsize
  by_cases hone : fromBe (h.take 4) = 1
  · rw [if_pos hone] at hsize ⊢
    split at hsize
    · cases hsize
    · rename_i ext hext
      obtain ⟨rfl, rfl⟩ := Prod.mk.inj (Except.ok.inj hsize)
      rw [if_neg (Nat.not_lt.mpr hle)]
      exact ⟨by decide, .inl rfl⟩
  · rw [if_neg hone] at hsize ⊢
    by_cases hzero : fromBe (h.take 4) = 0
    · rw [if_pos hzero] at hsize ⊢
      obtain ⟨rfl, rfl⟩ := Prod.mk.inj (Except.ok.inj hsize)
      exact ⟨le_rfl, .inr ⟨rfl, rfl⟩⟩
    · rw [if_neg hzero] at hsize ⊢
      obtain ⟨rfl, rfl⟩ := Prod.mk.inj (Except.ok.inj hsize)
      rw [if_neg (Nat.not_lt.mpr hle)]
      exact ⟨le_rfl, .inl rfl⟩

theorem readBox_ok {off stop count : ℕ} (h : readBox file off stop count = .ok box) :
    BoxAt file off stop box := by
  rw [readBox] at h
  by_cases hshort : maxBoxes < count ∨ stop - off < 8
  · rw [if_pos hshort] at h
    cases h
  · rw [if_neg hshort] at h
    split at h
    · cases h
    · rename_i bytes hread
      split at h
      · cases h
      · rename_i size header hsize
        by_cases hbounds : size < header ∨ ¬ (off + size < 2 ^ 64 ∧ off + size ≤ stop)
        · rw [if_pos hbounds] at h
          cases h
        · rw [if_neg hbounds] at h
          obtain ⟨hheader, hfits⟩ := not_or.mp hbounds
          obtain ⟨hfits64, hfits⟩ := not_not.mp hfits
          have hle : header ≤ size := Nat.not_lt.mp hheader
          obtain ⟨hpos, hscanned⟩ := boxSize_ok hread hsize hle
          split at h
          · cases h
          · rename_i hkind
            obtain ⟨hlisted, hudta⟩ := checkKind_ok hkind
            obtain rfl := Except.ok.inj h
            exact ⟨rfl, hpos, hle, hfits, hfits64, hlisted, hudta, hscanned⟩

/-- `readBox` only fails with an error of its own. -/
theorem readBox_error {off stop count : ℕ} {e : Halt} (h : readBox file off stop count = .error e) :
    ∃ e', e = .error e' := by
  rw [readBox] at h
  split at h
  · exact ⟨_, (Except.error.inj h).symm⟩
  split at h
  · exact ⟨_, (Except.error.inj h).symm⟩
  split at h
  · rename_i hsize
    rw [boxSize] at hsize
    split at hsize
    · split at hsize
      · exact ⟨_, (Except.error.inj h).symm.trans (Except.error.inj hsize).symm⟩
      · cases hsize
    · split at hsize
      · cases hsize
      · cases hsize
  split at h
  · exact ⟨_, (Except.error.inj h).symm⟩
  split at h
  · rename_i hkind
    rw [checkKind] at hkind
    split at hkind
    · exact ⟨_, (Except.error.inj h).symm.trans (Except.error.inj hkind).symm⟩
    split at hkind
    · split at hkind
      · exact ⟨_, (Except.error.inj h).symm.trans (Except.error.inj hkind).symm⟩
      split at hkind
      · exact ⟨_, (Except.error.inj h).symm.trans (Except.error.inj hkind).symm⟩
      split at hkind
      · exact ⟨_, (Except.error.inj h).symm.trans (Except.error.inj hkind).symm⟩
      · cases hkind
    · cases hkind
  · cases h

/-- The boxes in a box. -/
def walkChildren (file : File) (fuel count depth : ℕ) (box : Mp4Box) :
    Forest Mp4Box × Except Halt ℕ :=
  if box.kind ∈ containers then
    walkBoxes file fuel (box.offset + box.header) (box.offset + box.size) (count + 1) (depth + 1)
  else (.nil, .ok (count + 1))

/-- What a round does with a box. No addition overflows any more. -/
theorem walkBoxes_box {fuel off stop count depth : ℕ} (hdepth : ¬ maxBoxDepth < depth)
    (hoff : off < stop) (hread : readBox file off stop (count + 1) = .ok box) :
    walkBoxes file (fuel + 1) off stop count depth =
      match (walkChildren file fuel count depth box).2 with
      | .error e => (.node box (walkChildren file fuel count depth box).1 .nil, .error e)
      | .ok count' =>
        (.node box (walkChildren file fuel count depth box).1
            (walkBoxes file fuel (off + box.size) stop count' depth).1,
          (walkBoxes file fuel (off + box.size) stop count' depth).2) := by
  have hbox := readBox_ok hread
  have hnext : add64 off box.size = .ok (off + box.size) := if_pos hbox.fits64
  have hinner : add64 off box.header = .ok (off + box.header) :=
    if_pos (lt_of_le_of_lt (Nat.add_le_add_left hbox.header_le off) hbox.fits64)
  rw [walkBoxes, if_neg hdepth, if_pos hoff]
  simp only [hread, hnext, hinner, walkChildren, hbox.offset_eq]
  by_cases hcontainer : box.kind ∈ containers
  · simp only [if_pos hcontainer]
    split
    · rename_i he
      rw [he]
    · rename_i hc
      cases hc
    · rename_i h₁ h₂
      cases h₂
      rw [h₁]
  · simp only [if_neg hcontainer]

/-- Boxes that lie side by side between two offsets, and inside the boxes they are nested in. -/
def Within : ℕ → ℕ → Forest Mp4Box → Prop
  | _, _, .nil => True
  | start, stop, .node box children rest =>
    start ≤ box.offset ∧ 8 ≤ box.header ∧ box.header ≤ box.size ∧
      box.offset + box.size ≤ stop ∧
      Within (box.offset + box.header) (box.offset + box.size) children ∧
      Within (box.offset + box.size) stop rest

theorem Within.offsets {start stop : ℕ} (h : Within start stop f) :
    ∀ b ∈ f.preorder, start ≤ b.offset ∧ b.offset < stop := by
  induction f generalizing start stop with
  | nil => exact fun b hb => absurd hb List.not_mem_nil
  | node box children rest ihc ihr =>
    obtain ⟨hstart, hheader, hle, hstop, hchildren, hrest⟩ := h
    intro b hb
    rcases Forest.mem_preorder_node.mp hb with rfl | hb | hb
    · omega
    · have hb := ihc hchildren b hb
      omega
    · have hb := ihr hrest b hb
      omega

/-- The boxes are visited at greater and greater offsets. -/
theorem Within.increasing {start stop : ℕ} (h : Within start stop f) :
    (f.preorder.map fun b => b.offset).Pairwise (· < ·) := by
  induction f generalizing start stop with
  | nil => exact List.Pairwise.nil
  | node box children rest ihc ihr =>
    obtain ⟨hstart, hheader, hle, hstop, hchildren, hrest⟩ := h
    rw [Forest.preorder_node, List.map_cons, List.map_append, List.pairwise_cons,
      List.pairwise_append]
    refine ⟨?_, ihc hchildren, ihr hrest, ?_⟩
    · intro offset hoffset
      rcases List.mem_append.mp hoffset with hoffset | hoffset
      · obtain ⟨b, hb, rfl⟩ := List.mem_map.mp hoffset
        have hb := hchildren.offsets b hb
        omega
      · obtain ⟨b, hb, rfl⟩ := List.mem_map.mp hoffset
        have hb := hrest.offsets b hb
        omega
    · intro x hx y hy
      obtain ⟨b, hb, rfl⟩ := List.mem_map.mp hx
      obtain ⟨c, hc, rfl⟩ := List.mem_map.mp hy
      exact (hchildren.offsets b hb).2.trans_le (hrest.offsets c hc).1

/-- What a box and its children are, in a file that the walk visits. -/
structure Sound (file : File) (box : Mp4Box) (children : Forest Mp4Box) : Prop where
  listed : box.kind ∈ allowed ∧ box.kind ∉ forbidden
  udta : box.kind = ascii "udta" → box.size = box.header + emptyFfmpegUdta.length ∧
    file.readExact (box.offset + box.header) emptyFfmpegUdta.length = some emptyFfmpegUdta
  nested : children ≠ .nil → box.kind ∈ containers
  inside : ∀ c ∈ children.roots, box.offset + box.header ≤ c.offset ∧
    c.offset + c.size ≤ box.offset + box.size

theorem Within.roots {start stop : ℕ} (h : Within start stop f) :
    ∀ b ∈ f.roots, start ≤ b.offset ∧ b.offset + b.size ≤ stop := by
  induction f generalizing start with
  | nil => exact fun b hb => absurd hb List.not_mem_nil
  | node box children rest ihc ihr =>
    obtain ⟨hstart, hheader, hle, hstop, hchildren, hrest⟩ := h
    intro b hb
    rcases List.mem_cons.mp hb with rfl | hb
    · exact ⟨hstart, hstop⟩
    · have hb := ihr hrest b hb
      omega

/-- What holds of a walk, whether it ends with an error or not. -/
structure Walked (file : File) (off stop : ℕ) (r : Forest Mp4Box × Except Halt ℕ) : Prop where
  within : Within off stop r.1
  sound : r.1.All (Sound file)
  no_overflow : r.2 ≠ .error .overflow

theorem walked_nil {off stop : ℕ} {x : Except Halt ℕ} (h : x ≠ .error .overflow) :
    Walked file off stop (.nil, x) :=
  ⟨trivial, trivial, h⟩

theorem walkBoxes_walked (fuel : ℕ) {off stop count depth : ℕ} :
    Walked file off stop (walkBoxes file fuel off stop count depth) := by
  induction fuel generalizing off stop count depth with
  | zero => exact walked_nil nofun
  | succ fuel ih =>
    by_cases hdepth : maxBoxDepth < depth
    · rw [walkBoxes, if_pos hdepth]
      exact walked_nil nofun
    · by_cases hoff : off < stop
      · cases hread : readBox file off stop (count + 1) with
        | error e =>
          obtain ⟨e', rfl⟩ := readBox_error hread
          rw [walkBoxes, if_neg hdepth, if_pos hoff]
          simp only [hread]
          exact walked_nil nofun
        | ok box =>
          have hbox := readBox_ok hread
          have hchildren : Walked file (box.offset + box.header) (box.offset + box.size)
              (walkChildren file fuel count depth box) ∧
              ((walkChildren file fuel count depth box).1 ≠ .nil → box.kind ∈ containers) := by
            rw [walkChildren]
            by_cases hcontainer : box.kind ∈ containers
            · rw [if_pos hcontainer]
              exact ⟨ih, fun _ => hcontainer⟩
            · rw [if_neg hcontainer]
              exact ⟨walked_nil nofun, fun h => absurd rfl h⟩
          have hsound : Sound file box (walkChildren file fuel count depth box).1 :=
            ⟨hbox.listed, by rw [hbox.offset_eq]; exact hbox.udta, hchildren.2,
              hchildren.1.within.roots⟩
          have hfits := hbox.fits
          rw [walkBoxes_box hdepth hoff hread]
          cases hresult : (walkChildren file fuel count depth box).2 with
          | error e =>
            have hoverflow := hchildren.1.no_overflow
            rw [hresult] at hoverflow
            exact ⟨⟨hbox.offset_eq.ge, hbox.header_pos, hbox.header_le,
              by rw [hbox.offset_eq]; exact hfits, hchildren.1.within, trivial⟩,
              ⟨hsound, hchildren.1.sound, trivial⟩,
              fun h => hoverflow (congrArg Except.error (Except.error.inj h))⟩
          | ok count' =>
            have hrest : Walked file (off + box.size) stop
              (walkBoxes file fuel (off + box.size) stop count' depth) := ih
            exact ⟨⟨hbox.offset_eq.ge, hbox.header_pos, hbox.header_le,
              by rw [hbox.offset_eq]; exact hfits, hchildren.1.within,
              by rw [hbox.offset_eq]; exact hrest.within⟩,
              ⟨hsound, hchildren.1.sound, hrest.sound⟩, hrest.no_overflow⟩
      · rw [walkBoxes, if_neg hdepth, if_neg hoff]
        exact walked_nil nofun

/-- A walk ends. -/
theorem walkBoxes_ends (fuel : ℕ) {off stop count depth : ℕ} (hfuel : stop - off < fuel) :
    (walkBoxes file fuel off stop count depth).2 ≠ .error .outOfFuel := by
  induction fuel generalizing off stop count depth with
  | zero => exact absurd hfuel (Nat.not_lt_zero _)
  | succ fuel ih =>
    by_cases hdepth : maxBoxDepth < depth
    · rw [walkBoxes, if_pos hdepth]
      exact nofun
    · by_cases hoff : off < stop
      · cases hread : readBox file off stop (count + 1) with
        | error e =>
          obtain ⟨e', rfl⟩ := readBox_error hread
          rw [walkBoxes, if_neg hdepth, if_pos hoff]
          simp only [hread]
          exact nofun
        | ok box =>
          have hbox := readBox_ok hread
          have hheader := hbox.header_pos
          have hle := hbox.header_le
          have hfits := hbox.fits
          have hchildren : (walkChildren file fuel count depth box).2 ≠ .error .outOfFuel := by
            rw [walkChildren]
            by_cases hcontainer : box.kind ∈ containers
            · rw [if_pos hcontainer]
              exact ih (by omega)
            · rw [if_neg hcontainer]
              exact nofun
          rw [walkBoxes_box hdepth hoff hread]
          cases hresult : (walkChildren file fuel count depth box).2 with
          | error e =>
            rw [hresult] at hchildren
            exact fun h => hchildren (congrArg Except.error (Except.error.inj h))
          | ok count' =>
            have hrest : (walkBoxes file fuel (off + box.size) stop count' depth).2 ≠
              .error .outOfFuel := ih (by omega)
            exact hrest
      · rw [walkBoxes, if_neg hdepth, if_neg hoff]
        exact nofun

end Buzz.Media
