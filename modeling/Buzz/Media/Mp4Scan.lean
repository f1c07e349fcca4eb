import Buzz.Media.Mp4Walk

namespace Buzz.Media
set_option autoImplicit true

/-- The scan over boxes that are known. -/
def scanBoxes : ℕ → Bool → List Atom → List Atom × Except Halt Unit
  | _, _, [] => ([], .ok ())
  | 0, _, _ :: _ => ([], .error (.error .moovNotAtFront))
  | left + 1, moovSeen, a :: as =>
    if mdatFirst a.kind moovSeen then ([a], .error (.error .moovNotAtFront))
    else
      (a :: (scanBoxes left (moovSeen || a.kind == ascii "moov") as).1,
        (scanBoxes left (moovSeen || a.kind == ascii "moov") as).2)

/-- Each `mdat` comes behind a `moov`. -/
def MoovFirst (moovSeen : Bool) (as : List Atom) : Prop :=
  ∀ pre a post, as = pre ++ a :: post → a.kind = ascii "mdat" →
    moovSeen = true ∨ ∃ m ∈ pre, m.kind = ascii "moov"

variable {file : File} {f : Forest Mp4Box} {left : ℕ} {moovSeen : Bool} {a : Atom} {as : List Atom}

theorem mdatFirst_iff {kind : List UInt8} :
    mdatFirst kind moovSeen = true ↔ kind = ascii "mdat" ∧ moovSeen = false := by
  rw [mdatFirst, Bool.and_eq_true, beq_iff_eq, Bool.not_eq_true']

theorem moovFirst_cons : MoovFirst moovSeen (a :: as) ↔
    mdatFirst a.kind moovSeen = false ∧ MoovFirst (moovSeen || a.kind == ascii "moov") as := by
  constructor
  · intro h
    constructor
    · apply Bool.eq_false_iff.mpr
      intro hfirst
      obtain ⟨hkind, hseen⟩ := mdatFirst_iff.mp hfirst
      rcases h [] a as rfl hkind with hseen' | ⟨m, hm, -⟩
      · rw [hseen] at hseen'
        cases hseen'
      · cases hm
    · intro pre b post has hkind
      rw [Bool.or_eq_true, beq_iff_eq]
      rcases h (a :: pre) b post (by rw [has]; rfl) hkind with hseen | ⟨m, hm, hmoov⟩
      · exact .inl (.inl hseen)
      · rcases List.mem_cons.mp hm with rfl | hm
        · exact .inl (.inr hmoov)
        · exact .inr ⟨m, hm, hmoov⟩
  · intro h
    obtain ⟨hfirst, hrest⟩ := h
    intro pre b post has hkind
    cases pre with
    | nil =>
      obtain ⟨rfl, rfl⟩ := List.cons.inj has
      left
      by_contra hseen
      rw [mdatFirst_iff.mpr ⟨hkind, Bool.eq_false_iff.mpr hseen⟩] at hfirst
      cases hfirst
    | cons c pre =>
      obtain ⟨rfl, htail⟩ := List.cons.inj has
      rcases hrest pre b post htail hkind with hseen | ⟨m, hm, hmoov⟩
      · rw [Bool.or_eq_true, beq_iff_eq] at hseen
        rcases hseen with hseen | hmoov
        · exact .inl hseen
        · exact .inr ⟨a, List.mem_cons_self, hmoov⟩
      · exact .inr ⟨m, List.mem_cons_of_mem _ hm, hmoov⟩

theorem scanBoxes_visits (left : ℕ) (moovSeen : Bool) (as : List Atom) :
    (scanBoxes left moovSeen as).1 <+: as := by
  induction as generalizing left moovSeen with
  | nil => rw [scanBoxes]
  | cons a as ih =>
    cases left with
    | zero =>
      rw [scanBoxes]
      exact List.nil_prefix
    | succ left =>
      rw [scanBoxes]
      split
      · exact List.cons_prefix_cons.mpr ⟨rfl, List.nil_prefix⟩
      · exact List.cons_prefix_cons.mpr ⟨rfl, ih left _⟩

/-- The scan accepts few boxes in the right order. -/
theorem scanBoxes_ok_iff (left : ℕ) (moovSeen : Bool) (as : List Atom) :
    (scanBoxes left moovSeen as).2 = .ok () ↔ as.length ≤ left ∧ MoovFirst moovSeen as := by
  induction as generalizing left moovSeen with
  | nil =>
    rw [scanBoxes]
    refine ⟨fun _ => ⟨Nat.zero_le _, ?_⟩, fun _ => rfl⟩
    intro pre a post has
    cases pre with
    | nil | cons => cases has
  | cons a as ih =>
    cases left with
    | zero =>
      rw [scanBoxes]
      exact ⟨nofun, fun h => absurd h.1 (Nat.not_succ_le_zero _)⟩
    | succ left =>
      rw [scanBoxes, moovFirst_cons, List.length_cons, Nat.add_le_add_iff_right]
      by_cases hfirst : mdatFirst a.kind moovSeen = true
      · rw [if_pos hfirst, hfirst]
        exact ⟨nofun, fun h => absurd h.2.1 Bool.true_eq_false.mp⟩
      · rw [if_neg hfirst, ih]
        exact and_congr_right' (iff_and_self.mpr fun _ => Bool.eq_false_iff.mpr hfirst)

theorem scanBoxes_ok_eq (h : (scanBoxes left moovSeen as).2 = .ok ()) :
    (scanBoxes left moovSeen as).1 = as := by
  induction as generalizing left moovSeen with
  | nil => rw [scanBoxes]
  | cons a as ih =>
    cases left with
    | zero =>
      rw [scanBoxes] at h
      cases h
    | succ left =>
      rw [scanBoxes] at h ⊢
      by_cases hfirst : mdatFirst a.kind moovSeen = true
      · rw [if_pos hfirst] at h
        cases h
      · rw [if_neg hfirst] at h ⊢
        exact congrArg (a :: ·) (ih h)

/-- Where the scan does not accept, it has seen enough boxes, or the last one is a misplaced `mdat`. -/
theorem scanBoxes_error (h : (scanBoxes left moovSeen as).2 ≠ .ok ()) :
    (scanBoxes left moovSeen as).1.length = left ∨
      moovSeen = false ∧ ∃ pre a, (scanBoxes left moovSeen as).1 = pre ++ [a] ∧
        a.kind = ascii "mdat" ∧ ∀ m ∈ pre, m.kind ≠ ascii "moov" := by
  induction as generalizing left moovSeen with
  | nil =>
    rw [scanBoxes] at h
    exact absurd rfl h
  | cons a as ih =>
    cases left with
    | zero =>
      rw [scanBoxes]
      exact .inl rfl
    | succ left =>
      rw [scanBoxes] at h ⊢
      by_cases hfirst : mdatFirst a.kind moovSeen = true
      · rw [if_pos hfirst]
        obtain ⟨hkind, hseen⟩ := mdatFirst_iff.mp hfirst
        exact .inr ⟨hseen, [], a, rfl, hkind, nofun⟩
      · rw [if_neg hfirst] at h ⊢
        rcases ih h with hlength | ⟨hseen, pre, b, hpre, hkind, hmoov⟩
        · exact .inl (congrArg Nat.succ hlength)
        · obtain ⟨hseen, ha⟩ := Bool.or_eq_false_iff.mp hseen
          refine .inr ⟨hseen, a :: pre, b, congrArg (a :: ·) hpre, hkind, ?_⟩
          intro m hm
          rcases List.mem_cons.mp hm with rfl | hm
          · exact beq_eq_false_iff_ne.mp ha
          · exact hmoov m hm

/-- The top-level boxes of a walk. -/
def topLevel (f : Forest Mp4Box) : List Atom :=
  f.roots.map Mp4Box.toAtom

theorem scan_end {off : ℕ} (h : ¬ off < file.size) (left : ℕ) (moovSeen : Bool) :
    scan file left off moovSeen = ([], .ok ()) := by
  rw [scan.eq_def]
  exact if_neg h

theorem scan_zero {off : ℕ} (h : off < file.size) (moovSeen : Bool) :
    scan file 0 off moovSeen = ([], .error (.error .moovNotAtFront)) := by
  rw [scan.eq_def]
  exact if_pos h

/-- A round of the scan that may still read a box. -/
def scanRound (file : File) (left offset : ℕ) (moovSeen : Bool) :
    AtomHeader → List Atom × Except Halt Unit
  | .stop => ([], .ok ())
  | .toEnd kind =>
    ([⟨offset, file.size - offset, kind⟩],
      if mdatFirst kind moovSeen then .error (.error .moovNotAtFront) else .ok ())
  | .atom size kind =>
    if mdatFirst kind moovSeen then
      ([⟨offset, size, kind⟩], .error (.error .moovNotAtFront))
    else
      match add64 offset size with
      | .error e => ([⟨offset, size, kind⟩], .error e)
      | .ok next =>
        (⟨offset, size, kind⟩ :: (scan file left next (moovSeen || kind == ascii "moov")).1,
          (scan file left next (moovSeen || kind == ascii "moov")).2)

theorem scan_succ {off : ℕ} (h : off < file.size) (left : ℕ) (moovSeen : Bool) :
    scan file (left + 1) off moovSeen = scanRound file left off moovSeen (readAtom file off) := by
  rw [scan.eq_def]
  simp only [if_pos h]
  cases readAtom file off with
  | stop | toEnd | atom => rfl

theorem walkBoxes_end (fuel stop count depth : ℕ) :
    (walkBoxes file fuel stop stop count depth).1 = .nil := by
  cases fuel with
  | zero => rfl
  | succ fuel =>
    rw [walkBoxes]
    split
    · rfl
    · rw [if_neg (Nat.lt_irrefl stop)]

/-- On a file that the walk accepts, the scan is one over its top-level boxes. -/
theorem scan_eq (fuel : ℕ) {off count n : ℕ}
    (h : walkBoxes file fuel off file.size count 0 = (f, .ok n)) (left : ℕ) (moovSeen : Bool) :
    scan file left off moovSeen = scanBoxes left moovSeen (topLevel f) := by
  induction fuel generalizing off count n f left moovSeen with
  | zero => cases congrArg Prod.snd h
  | succ fuel ih =>
    have hdepth : ¬ maxBoxDepth < 0 := Nat.not_lt_zero _
    by_cases hoff : off < file.size
    · cases hread : readBox file off file.size (count + 1) with
      | error e =>
        rw [walkBoxes, if_neg hdepth, if_pos hoff] at h
        simp only [hread] at h
        cases congrArg Prod.snd h
      | ok box =>
        have hbox := readBox_ok hread
        have hatom : box.toAtom = ⟨off, box.size, box.kind⟩ := by rw [← hbox.offset_eq]
        rw [walkBoxes_box hdepth hoff hread] at h
        split at h
        · cases congrArg Prod.snd h
        · rename_i count' hchildren
          obtain ⟨rfl, hresult⟩ := Prod.mk.inj h
          have hrest := ih (Prod.ext rfl hresult)
          have htop : topLevel (.node box (walkChildren file fuel count 0 box).1
              (walkBoxes file fuel (off + box.size) file.size count' 0).1) =
            ⟨off, box.size, box.kind⟩ ::
              topLevel (walkBoxes file fuel (off + box.size) file.size count' 0).1 := by
            rw [topLevel, Forest.roots_node, List.map_cons, hatom]
            rfl
          rw [htop]
          cases left with
          | zero => rw [scan_zero hoff, scanBoxes]
          | succ left =>
            rw [scan_succ hoff, scanBoxes]
            rcases hbox.scanned with hscanned | ⟨hscanned, hsize⟩
            · have hnext : add64 off box.size = .ok (off + box.size) := if_pos hbox.fits64
              rw [hscanned]
              simp only [scanRound, hnext, hrest]
            · have hlast : off + box.size = file.size := by omega
              rw [hscanned, hlast, walkBoxes_end, hsize]
              simp only [scanRound, topLevel, Forest.roots_nil, List.map_nil, scanBoxes]
              split
              · rfl
              · rfl
    · rw [walkBoxes, if_neg hdepth, if_neg hoff] at h
      obtain ⟨rfl, -⟩ := Prod.mk.inj h
      rw [scan_end hoff, topLevel, Forest.roots_nil, List.map_nil, scanBoxes]

def emptyBox (kind : String) : List UInt8 :=
  [0, 0, 0, 8] ++ ascii kind

def fastStartFile : File where
  bytes := emptyBox "moov" ++ emptyBox "mdat"
  size_lt := by decide

def lateMoovFile : File where
  bytes := emptyBox "mdat" ++ emptyBox "moov"
  size_lt := by decide

end Buzz.Media
