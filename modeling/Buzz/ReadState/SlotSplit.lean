import Buzz.Lib.Decimal
import Buzz.ReadState.SlotDeal

namespace Buzz.ReadState
set_option autoImplicit true
open Json

/-- Every count that is passed is too big, and so is the last one only at the maximum. -/
theorem growSlots_spec (tooBig : ℕ → Bool) {maxSlots fuel count : ℕ} (hle : count ≤ maxSlots)
    (hfuel : maxSlots - count ≤ fuel) :
    count ≤ growSlots tooBig maxSlots fuel count ∧
      growSlots tooBig maxSlots fuel count ≤ maxSlots ∧
      (∀ n, count ≤ n → n < growSlots tooBig maxSlots fuel count → tooBig n = true) ∧
      (tooBig (growSlots tooBig maxSlots fuel count) = true →
        growSlots tooBig maxSlots fuel count = maxSlots) := by
  induction fuel generalizing count with
  | zero =>
    rw [growSlots]
    exact ⟨le_rfl, hle, fun n hn hlt => absurd hn (not_le.mpr hlt), fun _ => by omega⟩
  | succ fuel ih =>
    rw [growSlots]
    by_cases hgrow : tooBig count = true ∧ count < maxSlots
    · rw [if_pos hgrow]
      obtain ⟨hlow, hhigh, hpassed, hlast⟩ := ih (Nat.succ_le_of_lt hgrow.2) (by omega)
      refine ⟨le_trans (Nat.le_succ count) hlow, hhigh, ?_, hlast⟩
      intro n hn hlt
      cases Nat.eq_or_lt_of_le hn with
      | inl heq =>
        rw [← heq]
        exact hgrow.1
      | inr hmore => exact hpassed n hmore hlt
    · rw [if_neg hgrow]
      refine ⟨le_rfl, hle, fun n hn hlt => absurd hn (not_le.mpr hlt), ?_⟩
      intro hbig
      have hmax : ¬ count < maxSlots := fun hlt => hgrow ⟨hbig, hlt⟩
      omega

/-- What callers promise: keys are distinct, channels are told from threads and messages by their
keys, and there is a first slot. -/
structure SplitArgs.Valid (args : SplitArgs) : Prop where
  channels : DistinctKeys args.channelEntries
  threads : DistinctKeys args.threadMsgEntries
  channel : ∀ e ∈ args.channelEntries, isThreadOrMsg e.1 = false
  thread : ∀ e ∈ args.threadMsgEntries, isThreadOrMsg e.1 = true
  slot : 1 ≤ args.initialSlotCount
  slots : args.initialSlotCount ≤ args.maxSlots

/-- Nothing is lost but the thread and message entries that had to go first. -/
structure SplitsWell (format : NumberText) (args : SplitArgs) (r : SlotSplitResult) : Prop where
  fits : ∀ slot ∈ r.slots, blobBytes format args.clientId slot ≤ args.maxBytes
  channels : ∀ e ∈ args.channelEntries, ∃ n, e ∈ r.slots.getD n [] ∧
    ∀ m, e.1 ∈ (r.slots.getD m []).map Prod.fst → m = n
  ids : r.slots.length = args.initialSlotCount + r.extraSlotIds.length
  kept : ∃ k, ((r.slots.getD 0 []).filter fun e => isThreadOrMsg e.1).Perm
      ((evictionOrder args.threadMsgEntries).drop k) ∧
    ((∀ e ∈ args.threadMsgEntries, Plain e.1.toList) → ∀ j < k,
      args.maxBytes < blobBytes format args.clientId
        (((r.slots.getD 0 []).filter fun e => !isThreadOrMsg e.1) ++
          (evictionOrder args.threadMsgEntries).drop j))

def SplitArgs.Holds (args : SplitArgs) (format : NumberText) : Prop :=
  match splitContextsIntoBudgetedSlots format args with
  | some r => SplitsWell format args r
  | none => args.overBudget format args.maxSlots = true

section Primary

variable {channels threads : List Entry}

/-- The channels of the slot are none of its threads. -/
theorem distinctKeys_append (hchannels : DistinctKeys channels) (hthreads : DistinctKeys threads)
    (hchannel : ∀ e ∈ channels, isThreadOrMsg e.1 = false)
    (hthread : ∀ e ∈ threads, isThreadOrMsg e.1 = true) : DistinctKeys (channels ++ threads) := by
  rw [DistinctKeys, List.map_append, List.nodup_append]
  refine ⟨hchannels, hthreads, ?_⟩
  intro k hk k' hk' heq
  obtain ⟨a, ha, rfl⟩ := List.mem_map.mp hk
  obtain ⟨b, hb, rfl⟩ := List.mem_map.mp hk'
  have hkind := hchannel a ha
  rw [heq, hthread b hb] at hkind
  cases hkind

theorem filter_channels (hchannel : ∀ e ∈ channels, isThreadOrMsg e.1 = false)
    (hthread : ∀ e ∈ threads, isThreadOrMsg e.1 = true) :
    (channels ++ threads).filter (fun e => !isThreadOrMsg e.1) = channels := by
  rw [List.filter_append, List.filter_eq_self.mpr, List.filter_eq_nil_iff.mpr, List.append_nil]
  · intro e he hnot
    rw [hthread e he] at hnot
    cases hnot
  · intro e he
    rw [hchannel e he]
    rfl

theorem evictionOrder_append (hchannel : ∀ e ∈ channels, isThreadOrMsg e.1 = false) :
    evictionOrder (channels ++ threads) = evictionOrder threads := by
  have hmsg : channels.filter (fun e => startsWith e.1 MSG_PREFIX) = [] := by
    apply List.filter_eq_nil_iff.mpr
    intro e he hyes
    have hkind := hchannel e he
    rw [isThreadOrMsg, hyes] at hkind
    cases hkind
  have hthread : channels.filter
      (fun e => !startsWith e.1 MSG_PREFIX && startsWith e.1 THREAD_PREFIX) = [] := by
    apply List.filter_eq_nil_iff.mpr
    intro e he hyes
    have hkind := hchannel e he
    rw [isThreadOrMsg, (Bool.and_eq_true_iff.mp hyes).2, Bool.or_true] at hkind
    cases hkind
  rw [evictionOrder, List.filter_append, List.filter_append, hmsg, hthread, List.nil_append,
    List.nil_append]
  rfl

/-- What is left of the slot is its channels and the end of the order. -/
theorem mem_withoutFirst_append (hdistinct : DistinctKeys (channels ++ threads))
    (hchannel : ∀ e ∈ channels, isThreadOrMsg e.1 = false)
    (hthread : ∀ e ∈ threads, isThreadOrMsg e.1 = true) (k : ℕ) {e : Entry} :
    e ∈ withoutFirst (channels ++ threads) k ↔
      e ∈ channels ∨ e ∈ (evictionOrder threads).drop k := by
  have horder : evictionOrder (channels ++ threads) = evictionOrder threads :=
    evictionOrder_append hchannel
  have hnodup := hdistinct.evictionOrder_keys.nodup
  rw [horder, ← List.take_append_drop k (evictionOrder threads), List.nodup_append] at hnodup
  have hall : e ∈ threads ↔
      e ∈ (evictionOrder threads).take k ∨ e ∈ (evictionOrder threads).drop k := by
    rw [← List.mem_append, List.take_append_drop, mem_evictionOrder]
    exact ⟨fun he => ⟨he, hthread e he⟩, And.left⟩
  rw [mem_withoutFirst hdistinct, horder, List.mem_append, hall]
  constructor
  · intro ⟨hin, hkept⟩
    cases hin with
    | inl hin => exact .inl hin
    | inr hin => exact .inr (hin.resolve_left hkept)
  · intro hin
    cases hin with
    | inl hin =>
      refine ⟨.inl hin, fun hgone => ?_⟩
      have hkind := (mem_evictionOrder.mp (List.mem_of_mem_take hgone)).2
      rw [hchannel e hin] at hkind
      cases hkind
    | inr hin => exact ⟨.inr (.inr hin), fun hgone => hnodup.2.2 e hgone e hin rfl⟩

theorem withoutFirst_append_perm (hdistinct : DistinctKeys (channels ++ threads))
    (hchannel : ∀ e ∈ channels, isThreadOrMsg e.1 = false)
    (hthread : ∀ e ∈ threads, isThreadOrMsg e.1 = true) (k : ℕ) :
    (withoutFirst (channels ++ threads) k).Perm (channels ++ (evictionOrder threads).drop k) := by
  have hnodup : (channels ++ (evictionOrder threads).drop k).Nodup := by
    rw [List.nodup_append]
    have hchannels : DistinctKeys channels :=
      hdistinct.sublist ((List.sublist_append_left _ _).map _)
    have hthreads : DistinctKeys threads :=
      hdistinct.sublist ((List.sublist_append_right _ _).map _)
    refine ⟨hchannels.nodup, hthreads.evictionOrder_keys.nodup.sublist
      (List.drop_sublist _ _), ?_⟩
    intro e he e' he' heq
    have hkind := (mem_evictionOrder.mp (List.mem_of_mem_drop he')).2
    rw [← heq, hchannel e he] at hkind
    cases hkind
  have hleft : (withoutFirst (channels ++ threads) k).Nodup := (hdistinct.filter _).nodup
  rw [List.perm_ext_iff_of_nodup hleft hnodup]
  intro e
  rw [mem_withoutFirst_append hdistinct hchannel hthread, List.mem_append]

variable {format : NumberText} {args : SplitArgs} {slot : List Entry}

theorem withThreads_eq (hvalid : args.Valid) (hboth : DistinctKeys (slot ++ args.threadMsgEntries)) :
    withThreads args slot = slot ++ args.threadMsgEntries := by
  rw [withThreads, foldl_assign hboth, List.filter_eq_self.mpr]
  intro e he
  have hkind := hvalid.thread e he
  apply decide_eq_true
  intro hname
  rw [hname] at hkind
  exact absurd hkind (by decide)

/-- The primary slot keeps its channels and the end of the order. -/
theorem primary_spec (hvalid : args.Valid) (hdistinct : DistinctKeys slot)
    (hchannel : ∀ e ∈ slot, isThreadOrMsg e.1 = false)
    (hfits : blobBytes format args.clientId slot ≤ args.maxBytes) {kept : List Entry}
    (hkept : kept = (trimContextsToBudget format (withThreads args slot) args.clientId
      args.maxBytes).1) :
    blobBytes format args.clientId kept ≤ args.maxBytes ∧
      ∃ k, kept.Perm (slot ++ (evictionOrder args.threadMsgEntries).drop k) ∧
        ((∀ e ∈ args.threadMsgEntries, Plain e.1.toList) → ∀ j < k,
          args.maxBytes < blobBytes format args.clientId
            (slot ++ (evictionOrder args.threadMsgEntries).drop j)) := by
  have hboth := distinctKeys_append hdistinct hvalid.threads hchannel hvalid.thread
  have hsame : (slot ++ args.threadMsgEntries).filter (fun e => !isThreadOrMsg e.1) = slot :=
    filter_channels hchannel hvalid.thread
  rw [withThreads_eq hvalid hboth] at hkept
  obtain ⟨k, hleft, hbudget, hleast⟩ := trim_spec format hboth (hsame.symm ▸ hfits)
  rw [hleft] at hkept
  subst hkept
  refine ⟨hbudget, k, withoutFirst_append_perm hboth hchannel hvalid.thread k, ?_⟩
  intro hplain j hj
  have hgone : ∀ e ∈ evictionOrder (slot ++ args.threadMsgEntries), Plain e.1.toList := by
    rw [evictionOrder_append hchannel]
    exact fun e he => hplain e (mem_evictionOrder.mp he).1
  rw [← blobBytes_perm format args.clientId
    (withoutFirst_append_perm hboth hchannel hvalid.thread j)]
  exact hleast hgone j hj

end Primary

section Split

variable {format : NumberText} {args : SplitArgs} {r : SlotSplitResult}

theorem slotCount_spec (format : NumberText) (hvalid : args.Valid) :
    args.initialSlotCount ≤ args.slotCount format ∧ args.slotCount format ≤ args.maxSlots ∧
      (∀ n, args.initialSlotCount ≤ n → n < args.slotCount format →
        args.overBudget format n = true) ∧
      (args.overBudget format (args.slotCount format) = true →
        args.slotCount format = args.maxSlots) :=
  growSlots_spec (args.overBudget format) hvalid.slots le_rfl

/-- The slots of a split: the primary slot is trimmed, the others are as they were dealt. -/
theorem split_slots (hvalid : args.Valid) (h : splitContextsIntoBudgetedSlots format args = some r) :
    args.overBudget format (args.slotCount format) = false ∧
      r.slots.length = args.slotCount format ∧
      r.extraSlotIds.length = args.slotCount format - args.initialSlotCount ∧
      r.slots.getD 0 [] = (trimContextsToBudget format
        (withThreads args (dealtTo (args.slotCount format) 0 0 args.channelEntries)) args.clientId
        args.maxBytes).1 ∧
      ∀ n, n ≠ 0 → n < args.slotCount format →
        r.slots.getD n [] = dealtTo (args.slotCount format) n 0 args.channelEntries := by
  have hlow := (slotCount_spec format hvalid).1
  have hpos := lt_of_lt_of_le hvalid.slot hlow
  have hlen := distribute_length args.channelEntries (args.slotCount format)
  rw [splitContextsIntoBudgetedSlots] at h
  cases hover : args.overBudget format (args.slotCount format) with
  | true =>
    rw [hover] at h
    cases h
  | false =>
    rw [hover, if_neg Bool.false_ne_true] at h
    obtain rfl := Option.some.inj h
    refine ⟨rfl, ?_, ?_, ?_, ?_⟩
    · rw [List.length_modify, hlen]
    · rw [List.length_map, List.length_range]
    · rw [getD_modify _ 0 (hlen.symm ▸ hpos), if_pos rfl, distribute_getD hvalid.channels hpos]
    · intro n hn hlt
      rw [getD_modify _ 0 (hlen.symm ▸ hlt), if_neg hn.symm, distribute_getD hvalid.channels hlt]

theorem dealtTo_fits (hvalid : args.Valid)
    (h : args.overBudget format count = false) {n : ℕ} (hn : n < count) :
    blobBytes format args.clientId (dealtTo count n 0 args.channelEntries) ≤ args.maxBytes := by
  have hlen := distribute_length args.channelEntries count
  rw [← distribute_getD hvalid.channels hn, List.getD_eq_getElem _ _ (hlen.symm ▸ hn)]
  have hnot := List.any_eq_false.mp h _ (List.getElem_mem (hlen.symm ▸ hn))
  rw [decide_eq_true_eq] at hnot
  exact not_lt.mp hnot

/-- A channel entry is in a slot if the slot is dealt it. -/
theorem mem_slot_iff (hvalid : args.Valid) (h : splitContextsIntoBudgetedSlots format args = some r)
    {e : Entry} (hkind : isThreadOrMsg e.1 = false) (n : ℕ) : e ∈ r.slots.getD n [] ↔
      n < args.slotCount format ∧
        e ∈ dealtTo (args.slotCount format) n 0 args.channelEntries := by
  obtain ⟨hover, hlen, _, hprimary, hothers⟩ := split_slots hvalid h
  by_cases hn : n < args.slotCount format
  · rw [and_iff_right hn]
    by_cases hzero : n = 0
    · subst hzero
      have hsub := dealtTo_sublist (args.slotCount format) 0 0 args.channelEntries
      obtain ⟨_, k, hperm, _⟩ := primary_spec hvalid (hvalid.channels.sublist (hsub.map Prod.fst))
        (fun e he => hvalid.channel e (hsub.subset he)) (dealtTo_fits hvalid hover hn) hprimary
      rw [hperm.mem_iff, List.mem_append]
      constructor
      · intro hin
        cases hin with
        | inl hin => exact hin
        | inr hin =>
          rw [(mem_evictionOrder.mp (List.mem_of_mem_drop hin)).2] at hkind
          cases hkind
      · exact Or.inl
    · rw [hothers n hzero hn]
  · rw [List.getD_eq_default _ _ (hlen.symm ▸ not_lt.mp hn)]
    constructor
    · intro hin
      cases hin
    · exact fun hin => absurd hin.1 hn

theorem splitsWell (hvalid : args.Valid) (hproto : "__proto__" ∉ args.channelEntries.map Prod.fst)
    (h : splitContextsIntoBudgetedSlots format args = some r) : SplitsWell format args r := by
  obtain ⟨hover, hlen, hids, hprimary, hothers⟩ := split_slots hvalid h
  have hlow := (slotCount_spec format hvalid).1
  have hpos := lt_of_lt_of_le hvalid.slot hlow
  have hsub := dealtTo_sublist (args.slotCount format) 0 0 args.channelEntries
  have hchannel : ∀ e ∈ dealtTo (args.slotCount format) 0 0 args.channelEntries,
      isThreadOrMsg e.1 = false := fun e he => hvalid.channel e (hsub.subset he)
  have hafter : ∀ k, ∀ e ∈ (evictionOrder args.threadMsgEntries).drop k,
      isThreadOrMsg e.1 = true := fun k e he =>
    (mem_evictionOrder.mp (List.mem_of_mem_drop he)).2
  obtain ⟨hfits, k, hperm, hleast⟩ := primary_spec hvalid
    (hvalid.channels.sublist (hsub.map Prod.fst)) hchannel (dealtTo_fits hvalid hover hpos) hprimary
  constructor
  case fits =>
    intro slot hslot
    obtain ⟨n, hn, rfl⟩ := List.mem_iff_getElem.mp hslot
    rw [← List.getD_eq_getElem _ [] hn]
    by_cases hzero : n = 0
    · rw [hzero]
      exact hfits
    · rw [hothers n hzero (hlen ▸ hn)]
      exact dealtTo_fits hvalid hover (hlen ▸ hn)
  case channels =>
    intro e he
    have hkind := hvalid.channel e he
    have hname : e.1 ≠ "__proto__" := fun heq => hproto (heq ▸ List.mem_map_of_mem he)
    obtain ⟨i, hi⟩ := List.mem_iff_getElem?.mp he
    refine ⟨i % args.slotCount format, ?_, ?_⟩
    · rw [mem_slot_iff hvalid h hkind, mem_dealtTo]
      exact ⟨Nat.mod_lt i hpos, hname, i, hi, by rw [Nat.zero_add]⟩
    · intro m hm
      obtain ⟨e', he', hkey⟩ := List.mem_map.mp hm
      rw [mem_slot_iff hvalid h (hkey.symm ▸ hkind), mem_dealtTo] at he'
      obtain ⟨_, _, j, hj, hturn⟩ := he'
      have hsame := hvalid.channels.eq (List.mem_of_getElem? hj) he hkey
      obtain ⟨hij, _⟩ := List.getElem?_eq_some_iff.mp hi
      have hji := (List.getElem?_inj hij hvalid.channels.nodup).mp (hi.trans (hsame ▸ hj.symm))
      rw [← hturn, hji, Nat.zero_add]
  case ids =>
    rw [hlen, hids]
    omega
  case kept =>
    refine ⟨k, ?_, ?_⟩
    · have hnil : (dealtTo (args.slotCount format) 0 0 args.channelEntries).filter
          (fun e => isThreadOrMsg e.1) = [] := by
        apply List.filter_eq_nil_iff.mpr
        intro e he hyes
        rw [hchannel e he] at hyes
        cases hyes
      have hright := hperm.filter fun e => isThreadOrMsg e.1
      rw [List.filter_append, hnil, List.filter_eq_self.mpr (hafter k), List.nil_append] at hright
      exact hright
    · intro hplain j hj
      have hleft := hperm.filter fun e => !isThreadOrMsg e.1
      rw [filter_channels hchannel (hafter k)] at hleft
      rw [blobBytes_perm format args.clientId (hleft.append_right _)]
      exact hleast hplain j hj

/-- A channel that is named `__proto__` is in no slot. -/
theorem not_splitsWell (hvalid : args.Valid) (hproto : "__proto__" ∈ args.channelEntries.map Prod.fst)
    (h : splitContextsIntoBudgetedSlots format args = some r) : ¬ SplitsWell format args r := by
  intro hwell
  obtain ⟨e, he, hkey⟩ := List.mem_map.mp hproto
  obtain ⟨n, hin, _⟩ := hwell.channels e he
  rw [mem_slot_iff hvalid h (hvalid.channel e he), mem_dealtTo] at hin
  exact hin.2.1 hkey

/-- There is no split if every count of slots leaves one over budget. -/
theorem split_eq_none_iff (hvalid : args.Valid) :
    splitContextsIntoBudgetedSlots format args = none ↔
      ∀ count, args.initialSlotCount ≤ count → count ≤ args.maxSlots →
        args.overBudget format count = true := by
  obtain ⟨hlow, hhigh, hpassed, hlast⟩ := slotCount_spec format hvalid
  have hnone : splitContextsIntoBudgetedSlots format args = none ↔
      args.overBudget format (args.slotCount format) = true := by
    rw [splitContextsIntoBudgetedSlots]
    cases args.overBudget format (args.slotCount format) with
    | true => exact ⟨fun _ => rfl, fun _ => rfl⟩
    | false =>
      constructor
      · intro h
        cases h
      · intro h
        cases h
  rw [hnone]
  constructor
  · intro hover count hmin hmax
    cases Nat.lt_or_ge count (args.slotCount format) with
    | inl hlt => exact hpassed count hmin hlt
    | inr hge =>
      have hcount : count = args.slotCount format :=
        le_antisymm (le_trans hmax (hlast hover).ge) hge
      rw [hcount]
      exact hover
  · exact fun hall => hall _ hlow hhigh

/-- The split does what it should unless a channel is named `__proto__` and there is a split. -/
theorem split_holds_iff (hvalid : args.Valid) : args.Holds format ↔
    "__proto__" ∉ args.channelEntries.map Prod.fst ∨
      ∀ count, args.initialSlotCount ≤ count → count ≤ args.maxSlots →
        args.overBudget format count = true := by
  rw [← split_eq_none_iff hvalid, SplitArgs.Holds]
  cases h : splitContextsIntoBudgetedSlots format args with
  | none =>
    have hall := (split_eq_none_iff hvalid).mp h
    exact ⟨fun _ => .inr rfl, fun _ => hall _ hvalid.slots le_rfl⟩
  | some r =>
    constructor
    · exact fun hwell => .inl fun hproto => not_splitsWell hvalid hproto h hwell
    · intro hor
      cases hor with
      | inl hproto => exact splitsWell hvalid hproto h
      | inr hnone => cases hnone

end Split

/-- Whole numbers are written with their digits. -/
def wholeNumbers : NumberText where
  text q := Decimal.write q.num.natAbs
  ascii q c hc := by
    have hdigit := Decimal.isDigit_of_mem_write hc
    rw [Char.isDigit, Bool.and_eq_true_iff, decide_eq_true_eq, decide_eq_true_eq] at hdigit
    rw [Char.utf8Size_eq_one_iff]
    exact UInt32.le_trans hdigit.2 (by decide)

def protoArgs : SplitArgs where
  channelEntries := [("general", 2), ("__proto__", 1)]
  threadMsgEntries := [("msg:a", 3)]
  clientId := "client"
  initialSlotCount := 1
  maxSlots := 8
  maxBytes := 1000
  slotIdGenerator := fun _ => "slot"

def plainArgs : SplitArgs :=
  { protoArgs with channelEntries := [("general", 2), ("random", 1)] }

theorem plainArgs_valid : plainArgs.Valid := by
  constructor
  · unfold DistinctKeys
    decide +kernel
  · unfold DistinctKeys
    decide +kernel
  · decide +kernel
  · decide +kernel
  · decide
  · decide

theorem plainArgs_holds : plainArgs.Valid ∧
    (plainArgs.Holds wholeNumbers ↔ "__proto__" ∉ plainArgs.channelEntries.map Prod.fst ∨
      ∀ count, plainArgs.initialSlotCount ≤ count → count ≤ plainArgs.maxSlots →
        plainArgs.overBudget wholeNumbers count = true) :=
  ⟨plainArgs_valid, split_holds_iff plainArgs_valid⟩

/-- The channel `__proto__` is read up to a time, and no slot has it. -/
theorem protoArgs_lost : ¬ protoArgs.Holds wholeNumbers := by
  have hsplit : splitContextsIntoBudgetedSlots wholeNumbers protoArgs =
      some ⟨[[("general", 2), ("msg:a", 3)]], []⟩ := by
    decide +kernel
  rw [SplitArgs.Holds, hsplit]
  intro hwell
  obtain ⟨n, hin, _⟩ := hwell.channels ("__proto__", 1) (by decide +kernel)
  cases n with
  | zero => exact absurd hin (by decide +kernel)
  | succ n => cases hin

end Buzz.ReadState
