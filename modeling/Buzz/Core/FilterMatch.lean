import Buzz.Core.Kind

namespace Buzz
set_option autoImplicit true

/-- Some tag of the event named `key` has `value` as its first part. -/
def eventHasTagValue (event : Event) (key value : String) : Bool :=
  event.tags.any fun t => t.kind == key && t.content == some value

def eventHasTag (event : Event) (key : String) : Bool :=
  event.tags.any fun t => t.kind == key

/-- One `#x` constraint of a filter against an event. Only `#h` falls back to the stored
channel, and only for events that carry no `h` tag of their own. -/
def genericTagMatch (key : SingleLetterTag) (values : ValueSet String) (ev : StoredEvent) : Bool :=
  let keyStr := key.toString
  let hasMatch := values.elems.any fun value => eventHasTagValue ev.event keyStr value
  if !hasMatch && keyStr == "h" then
    if !eventHasTag ev.event "h" then
      match ev.channelId with
      | some chId => values.elems.any fun value => value == Uuid.toString chId
      | none => false
    else false
  else hasMatch

/-- Event ids are matched by hexadecimal prefix. -/
def idMatch (id evId : EventId) : Bool :=
  id.toChars.isPrefixOf evId.toChars

def filterMatchOne (f : Filter) (ev : StoredEvent) : Bool :=
  (match f.kinds with
    | some kinds => kinds.elems.contains ev.event.kind
    | none => true) &&
  (match f.authors with
    | some authors => authors.elems.contains ev.event.pubkey
    | none => true) &&
  (match f.since with
    | some since => !decide (ev.event.createdAt < since)
    | none => true) &&
  (match f.until_ with
    | some untl => !decide (untl < ev.event.createdAt)
    | none => true) &&
  (match f.ids with
    | some ids => ids.elems.any fun id => idMatch id ev.event.id
    | none => true) &&
  f.genericTags.entries.all fun entry => genericTagMatch entry.1 entry.2 ev

/-- Filters are OR-ed. -/
def filtersMatch (filters : List Filter) (ev : StoredEvent) : Bool :=
  filters.any fun f => filterMatchOne f ev

/-- Result-level read authorization: the owner-only kinds are readable only by a reader
that their `#p` tag names. -/
def readerAuthorizedForEvent (event : Event) (readerPubkeyHex : String) : Bool :=
  if event.kind.toNat != KIND_DM_VISIBILITY && event.kind.toNat != KIND_AGENT_TURN_METRIC then true
  else eventHasTagValue event (SingleLetterTag.toString .p) readerPubkeyHex

theorem idMatch_iff {id evId : EventId} : idMatch id evId = true ↔ id = evId := by
  rw [idMatch, List.isPrefixOf_iff_prefix]
  constructor
  · intro h
    have he := h.eq_of_length (by rw [HexId.toChars_length, HexId.toChars_length])
    exact HexId.toHex_injective (congrArg String.ofList he)
  · rintro rfl
    exact List.prefix_rfl

theorem filtersMatch_singleton (f : Filter) (ev : StoredEvent) :
    filtersMatch [f] ev = filterMatchOne f ev := by
  simp [filtersMatch]

/-- What a matching event satisfies, one clause for each field of the filter. -/
structure Matches (f : Filter) (ev : StoredEvent) : Prop where
  kinds : ∀ ks, f.kinds = some ks → ev.event.kind ∈ ks.elems
  authors : ∀ as, f.authors = some as → ev.event.pubkey ∈ as.elems
  since : ∀ t, f.since = some t → t ≤ ev.event.createdAt
  until_ : ∀ t, f.until_ = some t → ev.event.createdAt ≤ t
  ids : ∀ is, f.ids = some is → ev.event.id ∈ is.elems
  tags : ∀ key vs, f.genericTags.lookup key = some vs → genericTagMatch key vs ev = true

theorem matches_of_filterMatchOne (h : filterMatchOne f ev = true) : Matches f ev := by
  simp only [filterMatchOne, Bool.and_eq_true, List.all_eq_true] at h
  obtain ⟨⟨⟨⟨⟨hk, ha⟩, hs⟩, hu⟩, hi⟩, ht⟩ := h
  constructor
  · intro ks he
    simpa [he] using hk
  · intro as he
    simpa [he] using ha
  · intro t he
    simpa [he] using hs
  · intro t he
    simpa [he] using hu
  · intro is he
    simp only [he, List.any_eq_true, idMatch_iff] at hi
    obtain ⟨id, hid, rfl⟩ := hi
    exact hid
  · intro key vs he
    exact ht ⟨key, vs⟩ (AList.mem_lookup_iff.mp he)

theorem filterMatchOne_iff : filterMatchOne f ev = true ↔ Matches f ev := by
  refine ⟨matches_of_filterMatchOne, fun h => ?_⟩
  simp only [filterMatchOne, Bool.and_eq_true, List.all_eq_true]
  refine ⟨⟨⟨⟨⟨?_, ?_⟩, ?_⟩, ?_⟩, ?_⟩, ?_⟩
  · cases hf : f.kinds with
    | none => rfl
    | some ks => simpa using h.kinds ks hf
  · cases hf : f.authors with
    | none => rfl
    | some as => simpa using h.authors as hf
  · cases hf : f.since with
    | none => rfl
    | some t => simpa using h.since t hf
  · cases hf : f.until_ with
    | none => rfl
    | some t => simpa using h.until_ t hf
  · cases hf : f.ids with
    | none => rfl
    | some is =>
      simp only [List.any_eq_true, idMatch_iff]
      exact ⟨_, h.ids is hf, rfl⟩
  · rintro ⟨key, vs⟩ hmem
    exact h.tags key vs (AList.mem_lookup_iff.mpr hmem)

/-- Outside `#h` a constraint is met only by a tag of that name. -/
theorem genericTagMatch_tag (h : genericTagMatch key vs ev = true) (hk : key ≠ .h) :
    ∃ v ∈ vs.elems, eventHasTagValue ev.event key.toString v = true := by
  have hne : ¬key.toString = "h" := by
    intro he
    exact hk (SingleLetterTag.toString_injective he)
  simp only [genericTagMatch, beq_iff_eq, hne, Bool.and_eq_true, and_false, ↓reduceIte,
    List.any_eq_true] at h
  exact h

/-- Outside `#h` a constraint is met exactly by a tag of that name. -/
theorem genericTagMatch_iff (hk : key ≠ .h) :
    genericTagMatch key vs ev = true ↔
      ∃ v ∈ vs.elems, eventHasTagValue ev.event key.toString v = true := by
  refine ⟨fun h => genericTagMatch_tag h hk, fun h => ?_⟩
  have hany : (vs.elems.any fun v => eventHasTagValue ev.event key.toString v) = true :=
    List.any_eq_true.mpr h
  simp [genericTagMatch, hany]

/-- An `#h` constraint is met by an `h` tag, or by the stored channel of an event without one. -/
theorem genericTagMatch_channel (h : genericTagMatch .h vs ev = true) :
    (∃ v ∈ vs.elems, eventHasTagValue ev.event "h" v = true) ∨
      ∃ ch, ev.channelId = some ch ∧ Uuid.toString ch ∈ vs.elems := by
  have hs : SingleLetterTag.h.toString = "h" := rfl
  rw [genericTagMatch, hs] at h
  cases hm : (vs.elems.any fun value => eventHasTagValue ev.event "h" value) with
  | true =>
    simpa only [List.any_eq_true] using Or.inl hm
  | false =>
    simp only [hm, Bool.not_false, beq_self_eq_true, Bool.and_self, ↓reduceIte] at h
    split at h
    · split at h
      · rename_i ch hch
        simp only [List.any_eq_true, beq_iff_eq] at h
        obtain ⟨v, hv, rfl⟩ := h
        exact .inr ⟨ch, hch, hv⟩
      · cases h
    · cases h

end Buzz
