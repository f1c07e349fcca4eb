import Buzz.Terminal.SessionLoop

namespace Buzz.Terminal
set_option autoImplicit true

/-- A snapshot shows the whole screen. -/
structure Snapshot (t : Term) (frame : Frame) : Prop where
  full : frame.full = true
  viewport : frame.viewport = t.viewport
  cursor : frame.cursor = t.cursor
  shows : frame.Shows t.screenRow
  carries : ∀ line < t.viewport.screenLines, frame.Carries line

theorem carries_of_mem {frame : Frame} {line : ℕ} {cells : List Cell}
    (h : rowFrame line cells ∈ frame.rows) : frame.Carries line :=
  ⟨rowFrame line cells, h, rfl⟩

/-- A frame that is encoded after its hashes are forgotten carries every row. -/
theorem encode_full {H : RowHasher} {t : Term} (hrows : FrameSession.RowsIn H t) (e : Encoder)
    (raw : RawFrame) (hraw : raw = t.captureAll) :
    Snapshot t (e.encode H.hash raw).2 ∧
      ∀ line < t.viewport.screenLines,
        (e.encode H.hash raw).1.hashAt line = H.hash (t.screenRow line) := by
  subst hraw
  have hmem := Encoder.mem_rows_encode H.hash e t.rows_captureAll
  refine ⟨⟨rfl, rfl, rfl, fun row hrow => ?_, fun line hline => ?_⟩, fun line hline => ?_⟩
  · obtain ⟨line, -, -, rfl⟩ := (hmem row).mp hrow
    rfl
  · refine carries_of_mem ((hmem _).mpr ⟨line, List.mem_range.mpr hline, ?_, rfl⟩)
    exact (H.ne_zero _ (hrows line)).symm
  · rw [Encoder.hashAt_encode H.hash e t.rows_captureAll, if_pos (List.mem_range.mpr hline)]

theorem capture_full (t : Term) : (t.capture .full).1 = t.captureAll := rfl

/-- A frame of partial damage carries the captured rows whose hash is a new one. -/
structure Incremental (H : RowHasher) (t : Term) (e : Encoder) (reported : List ℕ) (e' : Encoder)
    (frame : Frame) : Prop where
  full : frame.full = false
  viewport : frame.viewport = t.viewport
  cursor : frame.cursor = t.cursor
  pointed : e'.cursor = some t.cursor
  changed : frame.cursorChanged = false → e.cursor = some t.cursor
  shows : frame.Shows t.screenRow
  carries : ∀ line, frame.Carries line ↔ (line ∈ reported ∧ line < t.viewport.screenLines) ∧
    e.hashAt line ≠ H.hash (t.screenRow line)
  hashAt : ∀ line, e'.hashAt line =
    if line ∈ reported ∧ line < t.viewport.screenLines then H.hash (t.screenRow line)
    else e.hashAt line

theorem encode_partial (H : RowHasher) (t : Term) (e : Encoder) (reported : List ℕ) :
    Incremental H t e reported (e.encode H.hash (t.capture (.partialLines reported)).1).1
      (e.encode H.hash (t.capture (.partialLines reported)).1).2 := by
  have hmem := Encoder.mem_rows_encode H.hash e (t.rows_capture reported)
  have hin : ∀ line, line ∈ reported.filter (· < t.viewport.screenLines) ↔
      line ∈ reported ∧ line < t.viewport.screenLines := fun line => by
    rw [List.mem_filter, decide_eq_true_eq]
  refine ⟨rfl, rfl, rfl, rfl, fun h => ?_, fun row hrow => ?_, fun line => ⟨fun h => ?_, fun h => ?_⟩,
    fun line => ?_⟩
  · exact not_ne_iff.mp (of_decide_eq_false h)
  · obtain ⟨line, -, -, rfl⟩ := (hmem row).mp hrow
    rfl
  · obtain ⟨row, hrow, rfl⟩ := h
    obtain ⟨line, hline, hne, rfl⟩ := (hmem row).mp hrow
    exact ⟨(hin line).mp hline, hne⟩
  · exact carries_of_mem ((hmem _).mpr ⟨line, (hin line).mpr h.1, h.2, rfl⟩)
  · rw [Encoder.hashAt_encode H.hash e (t.rows_capture reported)]
    exact if_congr (hin line) rfl rfl

namespace Incremental

variable {H : RowHasher} {t : Term} {e e' : Encoder} {reported : List ℕ} {frame : Frame}

/-- A row that is not sent had its hash already. -/
theorem kept (h : Incremental H t e reported e' frame) {line : ℕ} (hline : ¬ frame.Carries line) :
    e'.hashAt line = e.hashAt line := by
  rw [h.hashAt]
  split
  · rename_i hin
    exact (not_ne_iff.mp fun hne => hline ((h.carries line).mpr ⟨hin, hne⟩)).symm
  · rfl

theorem empty (h : Incremental H t e reported e' frame) (hempty : frame.isEmpty = true) :
    (∀ line, ¬ frame.Carries line) ∧ e.cursor = some t.cursor := by
  rw [Frame.isEmpty, Bool.and_eq_true, Bool.and_eq_true] at hempty
  refine ⟨fun line hline => ?_, h.changed (Bool.not_eq_true' _ ▸ hempty.1.2)⟩
  obtain ⟨row, hrow, -⟩ := hline
  rw [List.isEmpty_iff.mp hempty.1.1] at hrow
  exact absurd hrow List.not_mem_nil

end Incremental

theorem Drawn.complete {t : Term} {frame : Frame} (hframe : Snapshot t frame) :
    Drawn [frame] t.viewport t.screenRow t.cursor := by
  intro grid hgrid
  rw [← hframe.viewport, ← hframe.cursor]
  exact deliver_complete hgrid hframe.shows (hframe.viewport ▸ hframe.carries)

theorem Drawn.of_suffix {since frames : List Frame} (h : Drawn since viewport drawn cursor)
    (hsuffix : since <:+ frames) : Drawn frames viewport drawn cursor := by
  obtain ⟨before, rfl⟩ := hsuffix
  intro grid hgrid
  rw [List.foldl_append]
  exact h _ (foldl_deliver_sized hgrid before)

variable {Id : Type} [DecidableEq Id]

namespace FrameSession

/-- What the renderer is left with by the last complete frame and the frames after it, and how the
reader's encoder relates to that. -/
structure Shown (H : RowHasher) (s : FrameSession Id) (rest : List Frame) (drawn : ℕ → List Cell)
    (cursor : CursorFrame) : Prop where
  picture : Drawn s.line.since s.term.viewport drawn cursor
  mem : ∀ line, drawn line ∈ H.rows
  -- The encoder has the hash of each row that the reader's own frames brought.
  hashed : ∀ line < s.term.viewport.screenLines,
    s.bySnapshot = false ∨ (∃ frame ∈ rest, frame.Carries line) →
      s.encoder.hashAt line = H.hash (drawn line)
  -- A row that a snapshot brought is the screen's until it is damaged or suppressed.
  untouched : ∀ line < s.term.viewport.screenLines, s.bySnapshot = true →
    (∀ frame ∈ rest, ¬ frame.Carries line) → line ∉ s.suppressed →
      ¬ s.term.damage.Covers line → retained (drawn line) = retained (s.term.screenRow line)
  pointed : s.bySnapshot = false ∨ rest ≠ [] → s.encoder.cursor = some cursor

/-- The publisher has the engine's viewport, and a row that is not damaged is the one the reader
captured last. -/
structure Synced (H : RowHasher) (s : FrameSession Id) : Prop where
  line : s.line.Ok
  applied : s.line.publisher.applied = s.term.viewport
  rows : RowsIn H s.term
  fresh : ∀ line < s.term.viewport.screenLines, ¬ s.term.damage.Covers line →
    s.encoder.hashAt line = H.hash (s.term.screenRow line)

structure Inv (H : RowHasher) (s : FrameSession Id) : Prop where
  synced : s.Synced H
  shown : s.line.publisher.subscription.isSome = true → ∃ frame rest drawn cursor,
    s.line.since = frame :: rest ∧ s.Shown H rest drawn cursor

variable {H : RowHasher} {s : FrameSession Id}

omit [DecidableEq Id] in
theorem inv_new {term : Term} (hrows : RowsIn H term) (hdamage : term.damage = .full) :
    (new term : FrameSession Id).Inv H where
  synced := by
    refine ⟨Line.ok_new _, rfl, hrows, fun line _ hline => absurd ?_ hline⟩
    change term.damage.Covers line
    rw [hdamage]
    trivial
  shown h := by cases h

/-- What an offer of a frame of the viewport in effect does, given that only a complete one is
offered while credit or readiness is held. -/
theorem exec_offer {line : Line Id} {frame : Frame} (hview : frame.viewport = line.publisher.applied)
    (hheld : line.publisher.requiresSnapshot = true → frame.full = true) :
    (line.exec (.offer frame)).publisher.applied = line.publisher.applied ∧
      ((line.exec (.offer frame)).publisher.subscription.isSome =
        line.publisher.subscription.isSome) ∧
      (line.publisher.subscription.isSome = true →
        (line.exec (.offer frame)).since = Line.accept line.since frame) := by
  cases hs : line.publisher.subscription with
  | none =>
    simp only [Line.exec, FramePublisher.offer, if_neg (not_not_intro hview), hs]
    exact ⟨trivial, trivial, fun h => by cases h⟩
  | some t =>
    have htaken : Line.Taken line.publisher frame := ⟨hview, by rw [hs]; rfl, hheld⟩
    by_cases hh : t.Held
    · have hfull : frame.full = true := by
        apply hheld
        rw [FramePublisher.requiresSnapshot, hs]
        exact decide_eq_true hh
      simp only [Line.exec, FramePublisher.offer, if_neg (not_not_intro hview), hs, if_pos hh,
        if_pos hfull, if_pos htaken]
      exact ⟨trivial, rfl, fun _ => trivial⟩
    · simp only [Line.exec, FramePublisher.offer, if_neg (not_not_intro hview), hs, if_neg hh,
        if_pos htaken]
      exact ⟨trivial, rfl, fun _ => trivial⟩

/-- A snapshot that is offered is taken, and nothing before it matters. -/
theorem Synced.offered_since (h : s.Synced H) {frame : Frame} (hframe : Snapshot s.term frame)
    (bySnapshot : Bool) (captured : List ℕ)
    (hsub : (s.offered frame bySnapshot captured).line.publisher.subscription.isSome = true) :
    (s.offered frame bySnapshot captured).line.since = [frame] ∧
      Line.Taken s.line.publisher frame := by
  have hview : frame.viewport = s.line.publisher.applied := hframe.viewport.trans h.applied.symm
  obtain ⟨-, hsome, hsince⟩ := exec_offer hview (fun _ => hframe.full)
  have hline : (s.offered frame bySnapshot captured).line = s.line.exec (.offer frame) := by
    unfold offered
    split <;> rfl
  rw [hline, hsome] at hsub
  refine ⟨?_, hview, hsub, fun _ => hframe.full⟩
  rw [hline, hsince hsub, Line.accept, if_pos hframe.full]

theorem Synced.offered_snapshot (h : s.Synced H) {frame : Frame} (hframe : Snapshot s.term frame) :
    (s.offered frame true []).Inv H := by
  have hsince := h.offered_since hframe true []
  obtain ⟨happlied, -, -⟩ :=
    exec_offer (hframe.viewport.trans h.applied.symm) (fun _ => hframe.full)
  have hok := Line.exec_ok h.line (.offer frame)
  unfold offered at hsince ⊢
  by_cases htaken : Line.Taken s.line.publisher frame ∧ frame.full = true
  · rw [if_pos htaken] at hsince ⊢
    refine ⟨⟨hok, happlied.trans h.applied, h.rows, h.fresh⟩, fun hsub => ?_⟩
    refine ⟨frame, [], s.term.screenRow, s.term.cursor, (hsince hsub).1, ?_, h.rows, ?_, ?_, ?_⟩
    · change Drawn (s.line.exec (.offer frame)).since s.term.viewport _ _
      rw [(hsince hsub).1]
      exact Drawn.complete hframe
    · rintro line - (hsnap | hcarry)
      · cases hsnap
      · obtain ⟨f, hf, -⟩ := hcarry
        exact absurd hf List.not_mem_nil
    · exact fun line _ _ _ _ _ => rfl
    · rintro (hsnap | hrest)
      · cases hsnap
      · exact absurd rfl hrest
  · rw [if_neg htaken] at hsince ⊢
    exact ⟨⟨hok, happlied.trans h.applied, h.rows, h.fresh⟩,
      fun hsub => absurd ⟨(hsince hsub).2, hframe.full⟩ htaken⟩

theorem Inv.snapshot (h : s.Inv H) : (s.snapshot H.hash).Inv H := by
  have hframe := (encode_full h.synced.rows s.snapshotEncoder s.term.captureAll rfl).1
  have hkept : ({ s with
      snapshotEncoder := (s.snapshotEncoder.encode H.hash s.term.captureAll).1 } : FrameSession Id).Inv H :=
    ⟨⟨h.synced.line, h.synced.applied, h.synced.rows, h.synced.fresh⟩, fun hs => by
      obtain ⟨frame, rest, drawn, cursor, hsince, hshown⟩ := h.shown hs
      exact ⟨frame, rest, drawn, cursor, hsince, hshown.picture, hshown.mem, hshown.hashed,
        hshown.untouched, hshown.pointed⟩⟩
  unfold FrameSession.snapshot
  simp only
  split
  · exact hkept
  · exact hkept.synced.offered_snapshot hframe

omit [DecidableEq Id] in
/-- With credit and readiness at hand no offer is refused. -/
theorem offer_ok {p : FramePublisher Id} (h : p.requiresSnapshot = false) (frame : Frame) :
    ∃ done, p.offer frame = .ok done := by
  unfold FramePublisher.offer
  by_cases hview : frame.viewport = p.applied
  · rw [if_neg (not_not_intro hview)]
    cases hs : p.subscription with
    | none => exact ⟨_, rfl⟩
    | some t =>
      rw [FramePublisher.requiresSnapshot, hs] at h
      have hheld : ¬ t.Held := of_decide_eq_false h
      simp only [if_neg hheld]
      exact ⟨_, rfl⟩
  · rw [if_pos hview]
    exact ⟨_, rfl⟩

theorem mem_skipped {captured : List ℕ} {frame : Frame} {line : ℕ} (hline : line ∈ captured)
    (hcarry : ¬ frame.Carries line) : line ∈ skipped captured frame := by
  refine List.mem_filter.mpr ⟨hline, List.all_eq_true.mpr fun row hrow => ?_⟩
  exact decide_eq_true fun he => hcarry ⟨row, hrow, he⟩

theorem mem_captured {t : Term} {reported : List ℕ} {line : ℕ} (hline : line ∈ reported)
    (hlt : line < t.viewport.screenLines) :
    line ∈ (t.capture (.partialLines reported)).1.rows.map Prod.fst := by
  refine List.mem_map.mpr ⟨(line, t.screenRow line), List.mem_map.mpr ⟨line, ?_, rfl⟩, rfl⟩
  exact List.mem_filter.mpr ⟨hline, decide_eq_true hlt⟩

/-- A full repaint from the reader's own encoder. -/
theorem Inv.render_full (h : s.Inv H) (hneed : s.line.publisher.requiresSnapshot = false) :
    (s.render H.hash .full).Inv H := by
  obtain ⟨hframe, hhash⟩ := encode_full h.synced.rows s.encoder _ (capture_full s.term)
  have hpointed : (s.encoder.encode H.hash (s.term.capture .full).1).1.cursor = some s.term.cursor :=
    rfl
  simp only [render]
  generalize (s.encoder.encode H.hash (s.term.capture .full).1).1 = e' at hhash hpointed ⊢
  generalize (s.encoder.encode H.hash (s.term.capture .full).1).2 = frame at hframe ⊢
  have hempty : frame.isEmpty = false := by
    rw [Frame.isEmpty, hframe.full, Bool.not_true, Bool.and_false]
  obtain ⟨done, hdone⟩ := offer_ok hneed frame
  have hview := hframe.viewport.trans h.synced.applied.symm
  obtain ⟨happlied, hsome, hnext⟩ := exec_offer hview (fun _ => hframe.full)
  simp only [hempty, Bool.false_eq_true, if_false, hdone]
  by_cases htaken : Line.Taken s.line.publisher frame ∧ frame.full = true
  · have hnew : (s.line.exec (.offer frame)).since = [frame] := by
      rw [hnext htaken.1.2.1, Line.accept, if_pos htaken.2]
    simp only [offered, if_pos htaken]
    refine ⟨⟨Line.exec_ok h.synced.line (.offer frame), happlied.trans h.synced.applied,
      h.synced.rows, fun line hline _ => hhash line hline⟩,
      fun _ => ⟨frame, [], s.term.screenRow, s.term.cursor, hnew, ?_, h.synced.rows,
        fun line hline _ => hhash line hline, (fun line _ hsnap => by cases hsnap),
        fun _ => hpointed⟩⟩
    change Drawn (s.line.exec (.offer frame)).since s.term.viewport _ _
    rw [hnew]
    exact Drawn.complete hframe
  · simp only [offered, if_neg htaken]
    refine ⟨⟨Line.exec_ok h.synced.line (.offer frame), happlied.trans h.synced.applied,
      h.synced.rows, fun line hline _ => hhash line hline⟩, fun hsub => ?_⟩
    exact absurd ⟨⟨hview, hsome ▸ hsub, fun _ => hframe.full⟩, hframe.full⟩ htaken

/-- An incremental frame from the reader's own encoder. -/
theorem Inv.render_partial (h : s.Inv H) (hneed : s.line.publisher.requiresSnapshot = false)
    {reported : List ℕ} (hreported : s.term.damage.Within (.partialLines reported)) :
    (s.render H.hash (.partialLines reported)).Inv H := by
  have hinc := encode_partial H s.term s.encoder reported
  simp only [render]
  generalize (s.encoder.encode H.hash (s.term.capture (.partialLines reported)).1).1 = e' at hinc ⊢
  generalize (s.encoder.encode H.hash (s.term.capture (.partialLines reported)).1).2 = frame
    at hinc ⊢
  -- The encoder has the hash of every row of the screen.
  have hfresh : ∀ line < s.term.viewport.screenLines,
      e'.hashAt line = H.hash (s.term.screenRow line) := by
    intro line hline
    rw [hinc.hashAt]
    split
    · rfl
    · rename_i hout
      exact h.synced.fresh line hline fun hcov => hout ⟨hreported.covers hcov, hline⟩
  split
  · rename_i hempty
    obtain ⟨hnone, hcursor⟩ := hinc.empty hempty
    refine ⟨⟨h.synced.line, h.synced.applied, h.synced.rows, fun line hline _ => hfresh line hline⟩,
      fun hsub => ?_⟩
    obtain ⟨first, rest, drawn, cursor, hsince, hshown⟩ := h.shown hsub
    refine ⟨first, rest, drawn, cursor, hsince, hshown.picture, hshown.mem,
      fun line hline hc => ?_, fun line hline hsnap hrest hsupp _ => ?_, fun hc => ?_⟩
    · exact (hinc.kept (hnone line)).trans (hshown.hashed line hline hc)
    · refine hshown.untouched line hline hsnap hrest
        (fun hin => hsupp (List.mem_append_left _ hin)) fun hcov => hsupp ?_
      exact List.mem_append_right _ (mem_captured (hreported.covers hcov) hline)
    · rw [← hshown.pointed hc, hcursor]
      exact hinc.pointed
  · obtain ⟨done, hdone⟩ := offer_ok hneed frame
    obtain ⟨happlied, hsome, hnext⟩ := exec_offer (hinc.viewport.trans h.synced.applied.symm)
      (fun hb => absurd hb (by rw [hneed]; exact Bool.false_ne_true))
    have htaken : ¬ (Line.Taken s.line.publisher frame ∧ frame.full = true) := fun ht =>
      absurd ht.2 (by rw [hinc.full]; exact Bool.false_ne_true)
    simp only [hdone, offered, if_neg htaken]
    refine ⟨⟨Line.exec_ok h.synced.line (.offer frame), happlied.trans h.synced.applied,
      h.synced.rows, fun line hline _ => hfresh line hline⟩, fun hsub => ?_⟩
    rw [hsome] at hsub
    obtain ⟨first, rest, drawn, cursor, hsince, hshown⟩ := h.shown hsub
    have hnew : (s.line.exec (.offer frame)).since = s.line.since ++ [frame] := by
      rw [hnext hsub, Line.accept, if_neg (by rw [hinc.full]; exact Bool.false_ne_true),
        if_neg (by rw [hsince]; exact List.cons_ne_nil _ _)]
    refine ⟨first, rest ++ [frame], drawOver frame s.term.screenRow drawn, frame.cursor,
      by rw [hnew, hsince, List.cons_append], ?_, fun line => ?_, fun line hline hc => ?_,
      fun line hline hsnap hrest hsupp _ => ?_, fun _ => hinc.pointed.trans (by rw [hinc.cursor])⟩
    · change Drawn (s.line.exec (.offer frame)).since s.term.viewport _ _
      rw [hnew]
      exact hshown.picture.snoc hinc.shows hinc.viewport
    · unfold drawOver
      split
      · exact h.synced.rows line
      · exact hshown.mem line
    · by_cases hcarry : frame.Carries line
      · rw [drawOver_carried hcarry]
        exact hfresh line hline
      · rw [drawOver_not_carried hcarry]
        refine (hinc.kept hcarry).trans (hshown.hashed line hline (hc.imp_right ?_))
        rintro ⟨f, hf, hfc⟩
        rcases List.mem_append.mp hf with hf | hf
        · exact ⟨f, hf, hfc⟩
        · rw [List.mem_singleton.mp hf] at hfc
          exact absurd hfc hcarry
    · have hcarry := hrest frame (List.mem_append_right _ (List.mem_singleton_self _))
      rw [drawOver_not_carried hcarry]
      refine hshown.untouched line hline hsnap (fun f hf => hrest f (List.mem_append_left _ hf))
        (fun hin => hsupp (List.mem_append_left _ hin)) fun hcov => hsupp ?_
      exact List.mem_append_right _
        (mem_skipped (mem_captured (hreported.covers hcov) hline) hcarry)

theorem Inv.read (h : s.Inv H) {reported : TermDamage} (hreported : s.term.damage.Within reported) :
    (s.read H.hash reported).Inv H := by
  unfold FrameSession.read
  split
  · exact h.snapshot
  · rename_i hneed
    rw [Bool.not_eq_true] at hneed
    cases reported with
    | full => exact h.render_full hneed
    | partialLines reported => exact h.render_partial hneed hreported

omit [DecidableEq Id] in
/-- The engine changes and the viewport stays. -/
theorem Inv.feed (h : s.Inv H) {term : Term} (hchange : s.term.Changes term)
    (hview : term.viewport = s.term.viewport) (hrows : RowsIn H term) :
    ({ s with term } : FrameSession Id).Inv H := by
  have hkept : ∀ line, ¬ term.damage.Covers line →
      ¬ s.term.damage.Covers line ∧ term.screenRow line = s.term.screenRow line := fun line hline =>
    ⟨fun hold => hline (hchange.damage.covers hold),
      not_ne_iff.mp fun hne => hline (hchange.row line hview hne)⟩
  refine ⟨⟨h.synced.line, h.synced.applied.trans hview.symm, hrows, fun line hlt hline => ?_⟩,
    fun hsub => ?_⟩
  · change s.encoder.hashAt line = H.hash (term.screenRow line)
    rw [(hkept line hline).2]
    exact h.synced.fresh line (hview ▸ hlt) (hkept line hline).1
  · obtain ⟨frame, rest, drawn, cursor, hsince, hshown⟩ := h.shown hsub
    refine ⟨frame, rest, drawn, cursor, hsince, ?_, hshown.mem,
      fun line hlt => hshown.hashed line (hview ▸ hlt),
      fun line hlt hsnap hrest hsupp hline => ?_, hshown.pointed⟩
    · change Drawn s.line.since term.viewport drawn cursor
      rw [hview]
      exact hshown.picture
    · change retained (drawn line) = retained (term.screenRow line)
      rw [(hkept line hline).2]
      exact hshown.untouched line (hview ▸ hlt) hsnap hrest hsupp (hkept line hline).1

theorem Synced.publishViewport (h : s.Synced H) : (s.publishViewport H.hash).Inv H :=
  h.offered_snapshot (encode_full h.rows .new _ rfl).1

/-- The engine changes, and the publisher is told of its viewport. -/
theorem Inv.resized (h : s.Inv H) {term : Term} (hchange : s.term.Changes term)
    (hrows : RowsIn H term) :
    ({ s with term, line := s.line.exec (.resizeApplied term.viewport) } : FrameSession Id).Synced H := by
  refine ⟨Line.exec_ok h.synced.line (.resizeApplied term.viewport), ?_, hrows,
    fun line hlt hline => ?_⟩
  · simp only [Line.exec, FramePublisher.resizeApplied]
    split
    · rename_i hsame
      exact hsame.symm
    · rfl
  · by_cases hview : term.viewport = s.term.viewport
    · exact (h.feed hchange hview hrows).synced.fresh line hlt hline
    · refine absurd ?_ hline
      change term.damage.Covers line
      rw [hchange.viewport hview]
      trivial

theorem Inv.attach (h : s.Inv H) (id : Id) : (s.attach H.hash id).Inv H := by
  have hframe := (encode_full h.synced.rows .new s.term.captureAll rfl).1
  have hok := Line.exec_ok h.synced.line (.attach id (Encoder.new.encode H.hash s.term.captureAll).2)
  unfold FrameSession.attach
  generalize (Encoder.new.encode H.hash s.term.captureAll).2 = frame at hframe hok ⊢
  have htaken : frame.viewport = s.line.publisher.applied ∧ frame.full = true :=
    ⟨hframe.viewport.trans h.synced.applied.symm, hframe.full⟩
  simp only [Line.exec, FramePublisher.attach, if_pos htaken] at hok ⊢
  refine ⟨⟨hok, h.synced.applied, h.synced.rows, h.synced.fresh⟩, fun _ => ?_⟩
  refine ⟨frame, [], s.term.screenRow, s.term.cursor, rfl, Drawn.complete hframe, h.synced.rows,
    ?_, fun line _ _ _ _ _ => rfl, ?_⟩
  · rintro line - (hsnap | hcarry)
    · cases hsnap
    · obtain ⟨f, hf, -⟩ := hcarry
      exact absurd hf List.not_mem_nil
  · rintro (hsnap | hrest)
    · cases hsnap
    · exact absurd rfl hrest

/-- An operation of the publisher that keeps the viewport and, for a live subscription, what has been
accepted. -/
theorem Inv.control (h : s.Inv H) {op : PublisherOp Id}
    (happlied : (s.line.exec op).publisher.applied = s.line.publisher.applied)
    (hsince : (s.line.exec op).publisher.subscription.isSome = true →
      s.line.publisher.subscription.isSome = true ∧ (s.line.exec op).since = s.line.since) :
    (s.control op).Inv H := by
  refine ⟨⟨Line.exec_ok h.synced.line op, happlied.trans h.synced.applied, h.synced.rows,
    h.synced.fresh⟩, fun hsub => ?_⟩
  obtain ⟨hwas, hkept⟩ := hsince hsub
  obtain ⟨frame, rest, drawn, cursor, heq, hshown⟩ := h.shown hwas
  refine ⟨frame, rest, drawn, cursor, hkept.trans heq, ?_, hshown.mem, hshown.hashed,
    hshown.untouched, hshown.pointed⟩
  change Drawn (s.line.exec op).since s.term.viewport drawn cursor
  rw [hkept]
  exact hshown.picture

theorem exec_acknowledge (line : Line Id) (id : Id) (sequence : ℕ) :
    (line.exec (.acknowledge id sequence)).publisher.applied = line.publisher.applied ∧
      ((line.exec (.acknowledge id sequence)).publisher.subscription.isSome = true →
        line.publisher.subscription.isSome = true) := by
  simp only [Line.exec, FramePublisher.acknowledge]
  cases hs : line.publisher.subscription with
  | none => exact ⟨rfl, fun h => hs ▸ h⟩
  | some t =>
    refine ⟨?_, fun _ => rfl⟩
    dsimp only
    split <;> rfl

theorem exec_viewportReady (line : Line Id) (id : Id) (viewport : Viewport) :
    (line.exec (.viewportReady id viewport)).publisher.applied = line.publisher.applied ∧
      ((line.exec (.viewportReady id viewport)).publisher.subscription.isSome = true →
        line.publisher.subscription.isSome = true) := by
  simp only [Line.exec, FramePublisher.viewportReady]
  cases hs : line.publisher.subscription with
  | none => exact ⟨rfl, fun h => hs ▸ h⟩
  | some t =>
    refine ⟨?_, fun _ => rfl⟩
    dsimp only
    split <;> rfl

theorem exec_fault (line : Line Id) (id : Id) :
    (line.exec (.fault id)).publisher.applied = line.publisher.applied ∧
      ((line.exec (.fault id)).publisher.subscription.isSome = true →
        line.publisher.subscription.isSome = true ∧ (line.exec (.fault id)).since = line.since) := by
  simp only [Line.exec, FramePublisher.fault]
  split
  · exact ⟨rfl, fun h => by cases h⟩
  · exact ⟨rfl, fun h => ⟨h, rfl⟩⟩

theorem Step.inv {s' : FrameSession Id} {op : SessionOp Id} (hstep : Step H s op s') (h : s.Inv H) :
    s'.Inv H := by
  cases hstep with
  | feed hchange hview hrows => exact h.feed hchange hview hrows
  | read hreported => exact h.read hreported
  | scroll hchange hview hrows => exact (h.feed hchange hview hrows).synced.publishViewport
  | resize hchange hrows => exact (h.resized hchange hrows).publishViewport
  | attach => exact h.attach _
  | acknowledge =>
    have hkept := exec_acknowledge s.line
    exact h.control (hkept _ _).1 fun hs => ⟨(hkept _ _).2 hs, rfl⟩
  | viewportReady =>
    have hkept := exec_viewportReady s.line
    exact h.control (hkept _ _).1 fun hs => ⟨(hkept _ _).2 hs, rfl⟩
  | fault => exact h.control (exec_fault s.line _).1 (exec_fault s.line _).2
  | close => exact h.control rfl fun hs => by cases hs

theorem run_inv {term : Term} {ops : List (SessionOp Id)} (hrows : RowsIn H term)
    (hdamage : term.damage = .full) (h : Run (Step H) (new term) ops s) : s.Inv H :=
  h.history (inv_new hrows hdamage) fun _ _ _ _ hs hstep => hstep.inv hs

/-- All that the subscription has been sent, and the frame that waits for credit. -/
def owed (s : FrameSession Id) : List Frame :=
  s.line.sent.map Publication.frame ++ (s.line.publisher.subscription.bind (·.pending)).toList

omit [DecidableEq Id] in
theorem Synced.since_suffix (h : s.Synced H)
    (hsub : s.line.publisher.subscription.isSome = true) : s.line.since <:+ s.owed := by
  obtain ⟨t, ht⟩ := Option.isSome_iff_exists.mp hsub
  have hlive := h.line.live t ht
  rw [owed, ht]
  change s.line.since <:+ s.line.sent.map Publication.frame ++ t.pending.toList
  cases hpending : t.pending with
  | none =>
    rw [Option.toList_none, List.append_nil]
    exact hlive.delivered hpending
  | some frame =>
    rw [(hlive.waiting frame hpending).2.2]
    exact List.suffix_append _ _

theorem offered_kept (s : FrameSession Id) (frame : Frame) (bySnapshot : Bool) (captured : List ℕ) :
    (s.offered frame bySnapshot captured).term = s.term ∧
      (s.offered frame bySnapshot captured).encoder = s.encoder := by
  unfold offered
  split <;> exact ⟨rfl, rfl⟩

/-- After a capture nothing is damaged, and the encoder has the cursor. -/
theorem render_settles (hneed : s.line.publisher.requiresSnapshot = false) (reported : TermDamage) :
    (s.render H.hash reported).term.damage = .partialLines [] ∧
      (s.render H.hash reported).term.screenRow = s.term.screenRow ∧
      (s.render H.hash reported).encoder.cursor = some (s.render H.hash reported).term.cursor := by
  simp only [render]
  obtain ⟨done, hdone⟩ := offer_ok hneed (s.encoder.encode H.hash (s.term.capture reported).1).2
  split
  · exact ⟨rfl, rfl, rfl⟩
  · simp only [hdone]
    obtain ⟨hterm, hencoder⟩ := offered_kept
      { s with
        term := (s.term.capture reported).2
        encoder := (s.encoder.encode H.hash (s.term.capture reported).1).1 }
      (s.encoder.encode H.hash (s.term.capture reported).1).2 false
      ((s.term.capture reported).1.rows.map Prod.fst)
    rw [hterm, hencoder]
    exact ⟨rfl, rfl, rfl⟩

/-- The line is one that the reader has brought up to date: its own frames carried it, or it was not
suppressed since the last snapshot. -/
def Settled (s : FrameSession Id) (line : ℕ) : Prop :=
  s.bySnapshot = false ∨ (∃ frame ∈ s.line.since.tail, frame.Carries line) ∨ line ∉ s.suppressed

omit [DecidableEq Id] in
theorem Inv.drawn_settled (h : s.Inv H) (hdamage : s.term.damage = .partialLines [])
    (hsub : s.line.publisher.subscription.isSome = true) : ∃ drawn cursor,
    Drawn s.line.since s.term.viewport drawn cursor ∧
      (∀ line < s.term.viewport.screenLines, s.Settled line →
        retained (drawn line) = retained (s.term.screenRow line)) ∧
      (s.bySnapshot = false ∨ s.line.since.tail ≠ [] → s.encoder.cursor = some cursor) := by
  have hclean : ∀ line, ¬ s.term.damage.Covers line := by
    intro line hline
    rw [hdamage] at hline
    exact absurd hline List.not_mem_nil
  obtain ⟨frame, rest, drawn, cursor, hsince, hshown⟩ := h.shown hsub
  have htail : s.line.since.tail = rest := by rw [hsince, List.tail_cons]
  refine ⟨drawn, cursor, hshown.picture, fun line hlt hsettled => ?_, htail ▸ hshown.pointed⟩
  rw [Settled, htail] at hsettled
  by_cases hown : s.bySnapshot = false ∨ ∃ frame ∈ rest, frame.Carries line
  · -- The hash of what is drawn and of what is on screen are the encoder's.
    have hhash := (hshown.hashed line hlt hown).symm.trans (h.synced.fresh line hlt (hclean line))
    exact retained_look (H.look _ (hshown.mem line) _ (h.synced.rows line) hhash)
  · rw [not_or] at hown
    refine hshown.untouched line hlt ((Bool.not_eq_false _).mp hown.1)
      (fun f hf hcarry => hown.2 ⟨f, hf, hcarry⟩) ?_ (hclean line)
    exact (hsettled.resolve_left hown.1).resolve_left hown.2

theorem Synced.snapshot_drawn (h : s.Synced H)
    (hsub : (s.snapshot H.hash).line.publisher.subscription.isSome = true) :
    (s.snapshot H.hash).term = s.term ∧
      Drawn (s.snapshot H.hash).line.since s.term.viewport s.term.screenRow s.term.cursor := by
  have hframe := (encode_full h.rows s.snapshotEncoder s.term.captureAll rfl).1
  unfold FrameSession.snapshot at hsub ⊢
  generalize s.snapshotEncoder.encode H.hash s.term.captureAll = done at hsub hframe ⊢
  have hempty : done.2.isEmpty = false := by
    rw [Frame.isEmpty, hframe.full, Bool.not_true, Bool.and_false]
  simp only [hempty, Bool.false_eq_true, if_false] at hsub ⊢
  have hsynced : ({ s with snapshotEncoder := done.1 } : FrameSession Id).Synced H :=
    ⟨h.line, h.applied, h.rows, h.fresh⟩
  refine ⟨(offered_kept _ _ _ _).1, ?_⟩
  rw [(hsynced.offered_since hframe true [] hsub).1]
  exact Drawn.complete hframe

/-- A screen of one empty row. -/
def blankTerm : Term where
  grid := fun _ => []
  displayOffset := 0
  cursorPoint := ⟨0, 0⟩
  showCursor := true
  viewport := ⟨0, 80, 1⟩
  damage := .full

/-- The empty row and a row of one cell. -/
def letterRows : Set (List Cell) := {[], [letterCell 'b']}

/-- A hash that counts. -/
def countBytes (bytes : List UInt8) : UInt64 := UInt64.ofNat (bytes.length + 1)

theorem letter_ne_zero : ∀ cells ∈ letterRows, hashCells plainFlagBits countBytes cells ≠ 0 := by
  rintro cells (rfl | rfl) <;> decide

theorem letter_valid : ∀ cells ∈ letterRows, ∀ cell ∈ cells, cell.Valid plainFlagBits := by
  rintro cells (rfl | rfl)
  · exact fun cell hcell => absurd hcell List.not_mem_nil
  · exact letterCell_valid 'b'

theorem letter_finish : ∀ as ∈ letterRows, ∀ bs ∈ letterRows,
    countBytes (hashedRow plainFlagBits as) = countBytes (hashedRow plainFlagBits bs) →
      hashedRow plainFlagBits as = hashedRow plainFlagBits bs := by
  rintro as (rfl | rfl) bs (rfl | rfl) h
  · rfl
  · exact absurd h (by decide)
  · exact absurd h (by decide)
  · rfl

def letterHasher : RowHasher :=
  .ofFinish plainFlagBits countBytes letterRows letter_ne_zero letter_valid letter_finish

theorem blankTerm_screenRow (line : ℕ) : blankTerm.screenRow line = [] := List.take_nil

theorem blank_rows : RowsIn letterHasher blankTerm := fun line => .inl (blankTerm_screenRow line)

/-- The renderer attaches and acknowledges, and the reader repaints. -/
def paintedSession : FrameSession ℕ :=
  (((new blankTerm).attach letterHasher.hash 7).control (.acknowledge 7 1)).read
    letterHasher.hash .full

/-- A complete frame that is offered while credit is out waits alone, the reader's encoder not told. -/
theorem Synced.read_held (h : s.Synced H) {t : Subscription Id}
    (ht : s.line.publisher.subscription = some t) (hheld : t.Held) (reported : TermDamage) :
    ∃ frame, Snapshot s.term frame ∧ (s.read H.hash reported).term = s.term ∧
      (s.read H.hash reported).encoder = s.encoder ∧
      (s.read H.hash reported).line =
        { publisher := { s.line.publisher with subscription := some { t with pending := some frame } },
          sent := s.line.sent, since := [frame] } := by
  have hneed : s.line.publisher.requiresSnapshot = true := by
    rw [FramePublisher.requiresSnapshot, ht]
    exact decide_eq_true hheld
  have hframe := (encode_full h.rows s.snapshotEncoder s.term.captureAll rfl).1
  rw [FrameSession.read, if_pos hneed, FrameSession.snapshot]
  generalize s.snapshotEncoder.encode H.hash s.term.captureAll = done at hframe ⊢
  have hempty : done.2.isEmpty = false := by
    rw [Frame.isEmpty, hframe.full, Bool.not_true, Bool.and_false]
  have hview : done.2.viewport = s.line.publisher.applied := hframe.viewport.trans h.applied.symm
  have htaken : Line.Taken s.line.publisher done.2 :=
    ⟨hview, by rw [ht]; rfl, fun _ => hframe.full⟩
  simp only [hempty, Bool.false_eq_true, if_false]
  refine ⟨done.2, hframe, (offered_kept _ _ _ _).1, (offered_kept _ _ _ _).2, ?_⟩
  rw [offered, if_pos ⟨htaken, hframe.full⟩]
  simp only [Line.exec, FramePublisher.offer, if_neg (not_not_intro hview), ht, if_pos hheld,
    if_pos hframe.full, if_pos htaken, Line.accept, Option.toList_none, List.append_nil]

theorem exec_acknowledge_live {line : Line Id} {t : Subscription Id} {sequence : ℕ}
    (ht : line.publisher.subscription = some t) (hcredit : t.inFlight = some sequence)
    (hready : t.viewportReady = true) :
    ∃ u, (line.exec (.acknowledge t.id sequence)).publisher.subscription = some u ∧ u.id = t.id ∧
      u.viewportReady = true ∧ u.pending = none ∧
      u.inFlight = (if t.pending.isSome then some t.nextSequence else none) := by
  have hlive : ¬ (t.id ≠ t.id ∨ t.inFlight ≠ some sequence) := by
    rw [not_or, not_ne_iff, not_ne_iff]
    exact ⟨rfl, hcredit⟩
  have hfree : ¬ ({ t with inFlight := none } : Subscription Id).Held := by
    rintro (h | h)
    · cases h
    · exact Bool.false_ne_true (h.symm.trans hready)
  simp only [Line.exec, FramePublisher.acknowledge, ht, if_neg hlive, Subscription.flush,
    if_neg hfree]
  cases hp : t.pending with
  | none => exact ⟨_, rfl, rfl, hready, rfl, rfl⟩
  | some frame => exact ⟨_, rfl, rfl, hready, rfl, rfl⟩

/-- A capture of rows whose hashes and cursor the encoder has sends nothing. -/
theorem render_silent {reported : List ℕ} (hcursor : s.encoder.cursor = some s.term.cursor)
    (hhash : ∀ line < s.term.viewport.screenLines,
      s.encoder.hashAt line = H.hash (s.term.screenRow line)) :
    (s.render H.hash (.partialLines reported)).line = s.line := by
  have hinc := encode_partial H s.term s.encoder reported
  have hchanged : (s.encoder.encode H.hash (s.term.capture (.partialLines reported)).1).2.cursorChanged
      = false := decide_eq_false (not_not_intro hcursor)
  simp only [render]
  generalize s.encoder.encode H.hash (s.term.capture (.partialLines reported)).1 = done
    at hinc hchanged ⊢
  have hrows : done.2.rows = [] := by
    refine List.eq_nil_iff_forall_not_mem.mpr fun row hrow => ?_
    obtain ⟨hin, hne⟩ := (hinc.carries row.line).mp ⟨row, hrow, rfl⟩
    exact hne (hhash row.line hin.2)
  have hempty : done.2.isEmpty = true := by
    rw [Frame.isEmpty, hrows, hchanged, hinc.full]
    rfl
  rw [if_pos hempty]

/-- A change that is seen while credit is out and undone once it is back is never drawn as undone:
the snapshot shows the change, and the row with its old hash is suppressed. -/
theorem undone_change_stays {term between after : Term} {ops : List (SessionOp Id)}
    (hrows : RowsIn H term) (hdamage : term.damage = .full) (h : Run (Step H) (new term) ops s)
    {t : Subscription Id} {n : ℕ} (ht : s.line.publisher.subscription = some t)
    (hcredit : t.inFlight = some n) (hready : t.viewportReady = true)
    (hclean : s.term.damage = .partialLines []) (hcursor : s.encoder.cursor = some s.term.cursor)
    (hchange : s.term.Changes between) (hbetween : between.viewport = s.term.viewport)
    (hin : RowsIn H between) (hfirst : between.damage = .partialLines first)
    (hback : between.Changes after) (hafter : after.viewport = s.term.viewport)
    (hsame : after.screenRow = s.term.screenRow) (hpoint : after.cursor = s.term.cursor)
    (hsecond : after.damage = .partialLines second) (hgrid : SizedGrid grid) :
    ∃ done : FrameSession Id, Run (Step H) s [.feed between, .read (.partialLines first),
        .acknowledge t.id n, .acknowledge t.id t.nextSequence, .feed after,
        .read (.partialLines second)] done ∧
      done.line.publisher.requiresSnapshot = false ∧
      done.term.screenRow = s.term.screenRow ∧ done.term.damage = .partialLines [] ∧
      Pictures (done.owed.foldl deliver grid) s.term.viewport between.screenRow between.cursor := by
  have hinv := run_inv hrows hdamage h
  have hfed := hinv.feed hchange hbetween hin
  have hheld : t.Held := .inl (by rw [hcredit]; rfl)
  have hrowsAfter : RowsIn H after := fun line => hsame ▸ hinv.synced.rows line
  have hwithin : between.damage.Within (.partialLines first) := by
    rw [hfirst]
    exact List.Subset.refl _
  have hwithin' : after.damage.Within (.partialLines second) := by
    rw [hsecond]
    exact List.Subset.refl _
  obtain ⟨frame, hframe, hterm, hencoder, hline⟩ :=
    hfed.synced.read_held ht hheld (.partialLines first)
  have hrun : Run (Step H) s ([.feed between] ++ [.read (.partialLines first)])
      (({ s with term := between } : FrameSession Id).read H.hash (.partialLines first)) :=
    (Run.nil.snoc (.feed hchange hbetween hin)).snoc (.read hwithin)
  generalize ({ s with term := between } : FrameSession Id).read H.hash (.partialLines first) = s₂
    at hterm hencoder hline hrun
  -- Both acknowledgements are those of the live subscription.
  have hsub₂ : s₂.line.publisher.subscription = some { t with pending := some frame } := by
    rw [hline]
  obtain ⟨u, hu, huid, huready, hupending, hucredit⟩ :=
    exec_acknowledge_live hsub₂ hcredit hready
  obtain ⟨v, hv, -, hvready, hvpending, hvcredit⟩ := exec_acknowledge_live hu hucredit huready
  rw [hupending] at hvcredit
  rw [huid] at hv
  -- The row is back, and its hash was never another.
  let s₄ : FrameSession Id := { s₂ with
    line := (s₂.line.exec (.acknowledge t.id n)).exec (.acknowledge t.id t.nextSequence) }
  have hview : after.viewport = s₄.term.viewport := by
    change after.viewport = s₂.term.viewport
    rw [hterm]
    exact hafter.trans hbetween.symm
  have hback' : s₄.term.Changes after := by
    change s₂.term.Changes after
    rw [hterm]
    exact hback
  have hrun₅ : Run (Step H) s ([.feed between] ++ [.read (.partialLines first)] ++
      [.acknowledge t.id n] ++ [.acknowledge t.id t.nextSequence] ++ [.feed after])
      { s₄ with term := after } :=
    ((hrun.snoc .acknowledge).snoc .acknowledge).snoc (.feed hback' hview hrowsAfter)
  have hneed : s₄.line.publisher.requiresSnapshot = false := by
    rw [FramePublisher.requiresSnapshot, hv]
    refine decide_eq_false ?_
    rintro (hheld | hheld)
    · rw [hvcredit] at hheld
      cases hheld
    · exact Bool.false_ne_true (hheld.symm.trans hvready)
  have hsilent : (({ s₄ with term := after } : FrameSession Id).render H.hash (.partialLines second)).line =
      s₄.line := by
    refine render_silent ?_ fun line hlt => ?_
    · change s₂.encoder.cursor = some after.cursor
      rw [hencoder, hpoint]
      exact hcursor
    · change s₂.encoder.hashAt line = H.hash (after.screenRow line)
      rw [hencoder, hsame]
      refine hinv.synced.fresh line (hafter ▸ hlt) fun hcovers => ?_
      rw [hclean] at hcovers
      exact absurd hcovers List.not_mem_nil
  have hrun₆ := hrun₅.snoc (.read hwithin')
  rw [FrameSession.read, if_neg (by rw [hneed]; exact Bool.false_ne_true)] at hrun₆
  obtain ⟨hdamaged, hscreen, -⟩ := render_settles (H := H) (s := { s₄ with term := after }) hneed
    (.partialLines second)
  have hdone := run_inv hrows hdamage (h.append hrun₆)
  refine ⟨_, hrun₆, by rw [hsilent, hneed], hscreen.trans hsame, hdamaged, ?_⟩
  have hsince : s₄.line.since = [frame] := by
    change s₂.line.since = [frame]
    rw [hline]
  have howed := hdone.synced.since_suffix (by rw [hsilent, hv]; rfl)
  rw [hsilent, hsince] at howed
  rw [← hbetween]
  exact (Drawn.complete hframe).of_suffix howed grid hgrid

/-- The blank screen with its line damaged. -/
def clearedTerm : Term := { blankTerm with damage := .partialLines [0] }

/-- The same with a letter on it. -/
def letterTerm : Term := { clearedTerm with grid := fun line => if line = 0 then [letterCell 'b'] else [] }

theorem letterTerm_screenRow (line : ℕ) :
    letterTerm.screenRow line = if line = 0 then [letterCell 'b'] else [] := by
  change (if (line : ℤ) - 0 = 0 then [letterCell 'b'] else []).take 80 = _
  rcases Nat.eq_zero_or_pos line with rfl | hpos
  · rfl
  · rw [if_neg (by omega), if_neg hpos.ne']
    rfl

theorem letter_changes {t t' : Term} (hview : t'.viewport = t.viewport)
    (hdamage : t.damage.Within (.partialLines [0])) (hd : t'.damage = .partialLines [0])
    (hrow : ∀ line, line ≠ 0 → t'.screenRow line = t.screenRow line) : t.Changes t' := by
  refine ⟨hd ▸ hdamage, fun line _ hne => ?_, fun hne => absurd hview hne⟩
  rw [hd]
  exact List.mem_singleton.mpr (not_ne_iff.mp fun h0 => hne (hrow line h0))

/-- A letter comes while the second frame is unacknowledged, and goes once it is acknowledged. -/
theorem undone_change_stays_letter : ∃ done : FrameSession ℕ,
    done.line.publisher.requiresSnapshot = false ∧ done.term.screenRow = blankTerm.screenRow ∧
      Pictures (done.owed.foldl deliver none) ⟨0, 80, 1⟩ letterTerm.screenRow ⟨0, 0, true⟩ := by
  have hletter : RowsIn letterHasher letterTerm := fun line => by
    rw [letterTerm_screenRow]
    split
    · exact .inr rfl
    · exact .inl rfl
  have hother : ∀ line, line ≠ 0 → letterTerm.screenRow line = [] := fun line hline => by
    rw [letterTerm_screenRow, if_neg hline]
  have hrun : Run (Step letterHasher) (new blankTerm : FrameSession ℕ)
      [.attach 7, .acknowledge 7 1, .read .full] paintedSession :=
    ((Run.nil.snoc .attach).snoc .acknowledge).snoc (.read trivial)
  have hchange : paintedSession.term.Changes letterTerm :=
    letter_changes rfl (List.nil_subset _) rfl fun line hline =>
      (hother line hline).trans (blankTerm_screenRow line).symm
  have hback : letterTerm.Changes clearedTerm :=
    letter_changes rfl (List.Subset.refl _) rfl fun line hline =>
      (blankTerm_screenRow line).trans (hother line hline).symm
  have hnone : SizedGrid none := fun g hg => by cases hg
  obtain ⟨done, -, hneed, hscreen, -, hshown⟩ := undone_change_stays blank_rows rfl hrun rfl rfl rfl
    rfl rfl hchange rfl hletter rfl hback rfl rfl rfl rfl hnone
  exact ⟨done, hneed, hscreen, hshown⟩

end FrameSession

end Buzz.Terminal
