import Buzz.Media.Mp4Scan

namespace Buzz.Media
set_option autoImplicit true

variable {file : File}

theorem fromBe_lt (bytes : List UInt8) : fromBe bytes < 256 ^ bytes.length := by
  have hfold : ∀ n, bytes.foldl (fun n x => n * 256 + x.toNat) n <
      (n + 1) * 256 ^ bytes.length := by
    induction bytes with
    | nil =>
      intro n
      rw [List.foldl_nil, List.length_nil, pow_zero, Nat.mul_one]
      exact Nat.lt_succ_self n
    | cons x bytes ih =>
      intro n
      have hx : x.toNat < 256 := x.toNat_lt
      have hle : n * 256 + x.toNat + 1 ≤ (n + 1) * 256 := by omega
      rw [List.foldl_cons, List.length_cons, pow_succ', ← Nat.mul_assoc]
      exact (ih _).trans_le (Nat.mul_le_mul_right _ hle)
  have hzero := hfold 0
  rw [Nat.zero_add, Nat.one_mul] at hzero
  exact hzero

/-- A 64-bit size in the header at an offset. -/
def ExtendedSize (file : File) (offset size : ℕ) (kind : List UInt8) : Prop :=
  ∃ header ext, file.readExact offset 8 = some header ∧ fromBe (header.take 4) = 1 ∧
    header.drop 4 = kind ∧ file.readExact (offset + 8) 8 = some ext ∧ fromBe ext = size

/-- How the scan comes from one offset to another. -/
inductive Reaches (file : File) : ℕ → ℕ → Bool → ℕ → Bool → Prop where
  | here {left offset : ℕ} {moovSeen : Bool} (h : offset < file.size) :
      Reaches file (left + 1) offset moovSeen offset moovSeen
  | next {left offset size target : ℕ} {kind : List UInt8} {moovSeen moovSeen' : Bool}
      (h : offset < file.size) (hread : readAtom file offset = .atom size kind)
      (hfirst : mdatFirst kind moovSeen = false) (hsize : offset + size < 2 ^ 64)
      (hrest : Reaches file left (offset + size) (moovSeen || kind == ascii "moov") target
        moovSeen') :
      Reaches file (left + 1) offset moovSeen target moovSeen'

/-- A box with a 64-bit size that ends behind the last offset. -/
def Huge (file : File) (offset : ℕ) (moovSeen : Bool) : Prop :=
  ∃ size kind, ExtendedSize file offset size kind ∧ mdatFirst kind moovSeen = false ∧
    2 ^ 64 ≤ offset + size

variable {left offset size target : ℕ} {kind : List UInt8} {moovSeen moovSeen' : Bool}

theorem length_readExact {n : ℕ} {bytes : List UInt8} (h : file.readExact offset n = some bytes) :
    bytes.length = n := by
  rw [File.readExact] at h
  split at h
  · rename_i hle
    rw [File.size] at hle
    rw [← Option.some.inj h, List.length_take, List.length_drop]
    omega
  · cases h

/-- The size of a box is a 64-bit field where it is not small. -/
theorem extended_of_readAtom (h : readAtom file offset = .atom size kind) :
    8 ≤ size ∧ (size < 2 ^ 32 ∨ ExtendedSize file offset size kind) := by
  rw [readAtom] at h
  cases hread : file.readExact offset 8 with
  | none =>
    simp only [hread] at h
    cases h
  | some header =>
    simp only [hread] at h
    by_cases hone : fromBe (header.take 4) = 1
    · rw [if_pos hone] at h
      cases hext : file.readExact (offset + 8) 8 with
      | none =>
        simp only [hext] at h
        cases h
      | some ext =>
        simp only [hext] at h
        split at h
        · cases h
        · rename_i hsmall
          obtain ⟨rfl, rfl⟩ := AtomHeader.atom.inj h
          exact ⟨by omega, .inr ⟨header, ext, hread, hone, rfl, hext, rfl⟩⟩
    · rw [if_neg hone] at h
      split at h
      · cases h
      split at h
      · cases h
      · rename_i hsmall
        obtain ⟨rfl, rfl⟩ := AtomHeader.atom.inj h
        refine ⟨Nat.not_lt.mp hsmall, .inl ((fromBe_lt _).trans_le ?_)⟩
        rw [List.length_take, length_readExact hread]
        decide

theorem readAtom_of_extended (h : ExtendedSize file offset size kind) (hsize : 16 ≤ size) :
    readAtom file offset = .atom size kind := by
  obtain ⟨header, ext, hread, hone, rfl, hext, rfl⟩ := h
  rw [readAtom]
  simp only [hread, hext]
  rw [if_pos hone, if_neg (Nat.not_lt.mpr hsize)]

/-- Where a round overflows, or the rounds behind it. -/
theorem scanRound_overflow : (scanRound file left offset moovSeen (readAtom file offset)).2 =
    .error .overflow ↔ ∃ size kind, readAtom file offset = .atom size kind ∧
      mdatFirst kind moovSeen = false ∧ (2 ^ 64 ≤ offset + size ∨ offset + size < 2 ^ 64 ∧
        (scan file left (offset + size) (moovSeen || kind == ascii "moov")).2 =
          .error .overflow) := by
  cases hread : readAtom file offset with
  | stop =>
    constructor
    · intro h
      cases h
    · rintro ⟨_, _, h, _⟩
      cases h
  | toEnd kind =>
    rw [scanRound]
    constructor
    · intro h
      split at h
      · cases h
      · cases h
    · rintro ⟨_, _, h, _⟩
      cases h
  | atom size kind =>
    have hatom : (∃ size' kind', AtomHeader.atom size kind = .atom size' kind' ∧
        mdatFirst kind' moovSeen = false ∧ (2 ^ 64 ≤ offset + size' ∨ offset + size' < 2 ^ 64 ∧
          (scan file left (offset + size') (moovSeen || kind' == ascii "moov")).2 =
            .error .overflow)) ↔
        mdatFirst kind moovSeen = false ∧ (2 ^ 64 ≤ offset + size ∨ offset + size < 2 ^ 64 ∧
          (scan file left (offset + size) (moovSeen || kind == ascii "moov")).2 =
            .error .overflow) := by
      constructor
      · intro h
        obtain ⟨size', kind', heq, h⟩ := h
        obtain ⟨rfl, rfl⟩ := AtomHeader.atom.inj heq
        exact h
      · intro h
        exact ⟨size, kind, rfl, h⟩
    rw [hatom, scanRound, add64]
    by_cases hfirst : mdatFirst kind moovSeen = true
    · rw [if_pos hfirst, hfirst]
      exact ⟨(fun h => by cases h), fun h => absurd h.1 Bool.true_eq_false.mp⟩
    · rw [if_neg hfirst, Bool.eq_false_iff.mpr hfirst]
      by_cases hsize : offset + size < 2 ^ 64
      · simp only [if_pos hsize]
        exact ⟨fun h => ⟨trivial, .inr ⟨hsize, h⟩⟩,
          fun h => h.2.elim (fun hlarge => absurd hsize (Nat.not_lt.mpr hlarge)) And.right⟩
      · simp only [if_neg hsize]
        exact ⟨fun _ => ⟨trivial, .inl (Nat.not_lt.mp hsize)⟩, fun _ => trivial⟩

/-- The scan overflows exactly where it comes to a box whose 64-bit size is too large. -/
theorem scan_overflow_iff (left offset : ℕ) (moovSeen : Bool) :
    (scan file left offset moovSeen).2 = .error .overflow ↔
      ∃ target moovSeen', Reaches file left offset moovSeen target moovSeen' ∧
        Huge file target moovSeen' := by
  induction left generalizing offset moovSeen with
  | zero =>
    have hscan : (scan file 0 offset moovSeen).2 ≠ .error .overflow := by
      by_cases hoff : offset < file.size
      · rw [scan_zero hoff]
        exact nofun
      · rw [scan_end hoff]
        exact nofun
    refine ⟨fun h => absurd h hscan, ?_⟩
    intro h
    obtain ⟨target, moovSeen', hreach, -⟩ := h
    cases hreach
  | succ left ih =>
    by_cases hoff : offset < file.size
    · have hsmall : offset < 2 ^ 63 := hoff.trans file.size_lt
      rw [scan_succ hoff, scanRound_overflow]
      constructor
      · intro h
        obtain ⟨size, kind, hread, hfirst, hlarge | ⟨hsize, hrest⟩⟩ := h
        · rcases (extended_of_readAtom hread).2 with hlt | hext
          · omega
          · exact ⟨offset, moovSeen, .here hoff, size, kind, hext, hfirst, hlarge⟩
        · obtain ⟨target, moovSeen', hreach, hhuge⟩ := (ih _ _).mp hrest
          exact ⟨target, moovSeen', .next hoff hread hfirst hsize hreach, hhuge⟩
      · intro h
        obtain ⟨target, moovSeen', hreach, hhuge⟩ := h
        cases hreach with
        | here =>
          obtain ⟨size, kind, hext, hfirst, hlarge⟩ := hhuge
          exact ⟨size, kind, readAtom_of_extended hext (by omega), hfirst, .inl hlarge⟩
        | next _ hread hfirst hsize hrest =>
          exact ⟨_, _, hread, hfirst, .inr ⟨hsize, (ih _ _).mpr ⟨target, moovSeen', hrest, hhuge⟩⟩⟩
    · rw [scan_end hoff]
      refine ⟨nofun, ?_⟩
      intro h
      obtain ⟨target, moovSeen', hreach, -⟩ := h
      cases hreach with
      | here h => exact absurd h hoff
      | next h => exact absurd h hoff

/-- The boxes from an offset on are visited at greater and greater offsets, and the scan ends. -/
structure Scanned (offset : ℕ) (r : List Atom × Except Halt Unit) : Prop where
  le : ∀ a ∈ r.1, offset ≤ a.offset
  increasing : (r.1.map Atom.offset).Pairwise (· < ·)
  ends : r.2 ≠ .error .outOfFuel

theorem scanned_nil {r : Except Halt Unit} (h : r ≠ .error .outOfFuel) : Scanned offset ([], r) :=
  ⟨nofun, List.Pairwise.nil, h⟩

theorem scanned_cons {as : List Atom} {r : Except Halt Unit} {next : ℕ} (h : Scanned next (as, r))
    (hnext : offset < next) : Scanned offset (⟨offset, size, kind⟩ :: as, r) where
  le := by
    intro a ha
    rcases List.mem_cons.mp ha with rfl | ha
    · exact le_rfl
    · exact hnext.le.trans (h.le a ha)
  increasing := by
    rw [List.map_cons, List.pairwise_cons]
    refine ⟨?_, h.increasing⟩
    intro x hx
    obtain ⟨a, ha, rfl⟩ := List.mem_map.mp hx
    exact hnext.trans_le (h.le a ha)
  ends := h.ends

theorem scan_scanned (left offset : ℕ) (moovSeen : Bool) :
    Scanned offset (scan file left offset moovSeen) := by
  induction left generalizing offset moovSeen with
  | zero =>
    by_cases hoff : offset < file.size
    · rw [scan_zero hoff]
      exact scanned_nil fun h => by cases h
    · rw [scan_end hoff]
      exact scanned_nil fun h => by cases h
  | succ left ih =>
    by_cases hoff : offset < file.size
    · have hone : ∀ {size : ℕ} {kind : List UInt8} {r : Except Halt Unit},
          r ≠ .error .outOfFuel → Scanned offset ([⟨offset, size, kind⟩], r) :=
        fun hr => scanned_cons (scanned_nil hr) (Nat.lt_succ_self offset)
      rw [scan_succ hoff]
      cases hread : readAtom file offset with
      | stop => exact scanned_nil fun h => by cases h
      | toEnd kind =>
        rw [scanRound]
        apply hone
        split
        · exact fun h => by cases h
        · exact fun h => by cases h
      | atom size kind =>
        have hpos := (extended_of_readAtom hread).1
        rw [scanRound, add64]
        split
        · exact hone fun h => by cases h
        · by_cases hsize : offset + size < 2 ^ 64
          · simp only [if_pos hsize]
            exact scanned_cons (ih _ _) (by omega)
          · simp only [if_neg hsize]
            exact hone fun h => by cases h
    · rw [scan_end hoff]
      exact scanned_nil fun h => by cases h

/-- Neither walker overflows, both visit greater and greater offsets, and both end. -/
structure Arithmetic (file : File) : Prop where
  scan_fits : (checkMoovBeforeMdat file).2 ≠ .error .overflow
  scan_increasing : ((checkMoovBeforeMdat file).1.map Atom.offset).Pairwise (· < ·)
  scan_ends : (checkMoovBeforeMdat file).2 ≠ .error .outOfFuel
  walk_fits : (validateMp4MetadataFree file).2 ≠ .error .overflow
  walk_increasing :
    ((validateMp4MetadataFree file).1.preorder.map fun b => b.offset).Pairwise (· < ·)
  walk_ends : (validateMp4MetadataFree file).2 ≠ .error .outOfFuel

/-- The arithmetic is right unless the scan comes to a box whose 64-bit size is too large. -/
theorem arithmetic_iff (file : File) : Arithmetic file ↔
    ¬ ∃ target moovSeen, Reaches file maxAtoms 0 false target moovSeen ∧
      Huge file target moovSeen := by
  have hscan : (checkMoovBeforeMdat file).2 = .error .overflow ↔ _ :=
    scan_overflow_iff maxAtoms 0 false
  rw [← hscan]
  constructor
  · exact fun h => h.scan_fits
  · intro h
    have hscanned : Scanned 0 (checkMoovBeforeMdat file) := scan_scanned maxAtoms 0 false
    have hwalked : Walked file 0 file.size (validateMp4MetadataFree file) :=
      walkBoxes_walked (file.size + 1)
    exact
      { scan_fits := h
        scan_increasing := hscanned.increasing
        scan_ends := hscanned.ends
        walk_fits := hwalked.no_overflow
        walk_increasing := hwalked.within.increasing
        walk_ends := walkBoxes_ends (file.size + 1) (Nat.lt_succ_self _) }

/-- A box behind another one whose 64-bit size is the largest there is. -/
def hugeFile : File where
  bytes := emptyBox "free" ++ [0, 0, 0, 1] ++ ascii "free" ++ List.replicate 8 0xff
  size_lt := by decide

theorem not_arithmetic_huge : ¬ Arithmetic hugeFile :=
  fun h => h.scan_fits (by decide)

end Buzz.Media
