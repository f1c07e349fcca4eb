import Buzz.Lib.Json
import Buzz.Lib.ListAt
import Buzz.ReadState.Format

namespace Buzz.ReadState
set_option autoImplicit true
open Json

def MSG_PREFIX : String := "msg:"

def THREAD_PREFIX : String := "thread:"

/-- How a number is written, in JSON and by `String`: with characters of one byte. -/
structure NumberText where
  text : ℚ → List Char
  ascii : ∀ q, ∀ c ∈ text q, c.utf8Size = 1

/-- A context and its timestamp. -/
abbrev Entry := String × ℚ

/-- `record[key] = value`. A new key comes last, and `__proto__` names no property of a record. That
keys which are numbers come first is left out: it changes no length and no order of other keys. -/
def assign (record : List Entry) (e : Entry) : List Entry :=
  if e.1 = "__proto__" then record
  else if record.any fun old => old.1 = e.1 then
    record.map fun old => if old.1 = e.1 then e else old
  else record ++ [e]

def entryText (format : NumberText) (e : Entry) : List Char :=
  printMember e.1 (format.text e.2)

def blobFor (format : NumberText) (clientId : String) (contexts : List Entry) : List Char :=
  printObject
    [printMember "v" ['1'], printMember "client_id" (printString clientId),
      printMember "contexts" (printObject (contexts.map (entryText format)))]

/-- `encoder.encode(blobFor(contexts)).length`. -/
def blobBytes (format : NumberText) (clientId : String) (contexts : List Entry) : ℕ :=
  textSize (blobFor format clientId contexts)

def startsWith (key start : String) : Bool :=
  start.toList.isPrefixOf key.toList

def isThreadOrMsg (key : String) : Bool :=
  startsWith key MSG_PREFIX || startsWith key THREAD_PREFIX

def oldestFirst (entries : List Entry) : List Entry :=
  entries.mergeSort fun a b => decide (a.2 ≤ b.2)

/-- The entries that may be evicted, in the order in which they go. -/
def evictionOrder (contexts : List Entry) : List Entry :=
  oldestFirst (contexts.filter fun e => startsWith e.1 MSG_PREFIX) ++
    oldestFirst (contexts.filter fun e => !startsWith e.1 MSG_PREFIX && startsWith e.1 THREAD_PREFIX)

/-- What an entry is thought to add to the blob: quotes, colon and comma beside key and value. -/
def estimate (format : NumberText) (e : Entry) : ℕ :=
  utf16Length e.1 + 3 + (format.text e.2).length + 1

/-- The keys to evict, until the estimate is within the budget. -/
def toEvict (format : NumberText) (maxBytes : ℕ) : ℤ → List Entry → List String
  | _, [] => []
  | currentBytes, e :: entries =>
    if currentBytes ≤ maxBytes then []
    else e.1 :: toEvict format maxBytes (currentBytes - estimate format e) entries

structure TrimResult where
  evicted : ℕ
  fitsAfterTrim : Bool
deriving DecidableEq

/-- The contexts that are left, and the result. -/
def trimContextsToBudget (format : NumberText) (contexts : List Entry) (clientId : String)
    (maxBytes : ℕ) : List Entry × TrimResult :=
  let currentBytes := blobBytes format clientId contexts
  if currentBytes ≤ maxBytes then (contexts, ⟨0, true⟩)
  else
    let keys := toEvict format maxBytes currentBytes (evictionOrder contexts)
    let kept := contexts.filter fun e => e.1 ∉ keys
    (kept, ⟨keys.length, blobBytes format clientId kept ≤ maxBytes⟩)

/-- The arguments of a split. The slot id generator is asked for the first id, the second, and so
on. -/
structure SplitArgs where
  channelEntries : List Entry
  threadMsgEntries : List Entry
  clientId : String
  initialSlotCount : ℕ
  maxSlots : ℕ
  maxBytes : ℕ
  slotIdGenerator : ℕ → String

structure SlotSplitResult where
  slots : List (List Entry)
  extraSlotIds : List String
deriving DecidableEq

/-- The entries dealt out to the slots in turn, from the entry `i` on. -/
def deal (count : ℕ) : ℕ → List Entry → List (List Entry) → List (List Entry)
  | _, [], slots => slots
  | i, e :: entries, slots =>
    deal count (i + 1) entries (slots.modify (i % count) fun slot => assign slot e)

def distribute (channelEntries : List Entry) (count : ℕ) : List (List Entry) :=
  deal count 0 channelEntries (List.replicate count [])

def SplitArgs.overBudget (args : SplitArgs) (format : NumberText) (count : ℕ) : Bool :=
  (distribute args.channelEntries count).any fun slot =>
    decide (args.maxBytes < blobBytes format args.clientId slot)

/-- One slot more, as long as some slot is over budget and there may be more. -/
def growSlots (tooBig : ℕ → Bool) (maxSlots : ℕ) : ℕ → ℕ → ℕ
  | 0, count => count
  | fuel + 1, count =>
    if tooBig count = true ∧ count < maxSlots then growSlots tooBig maxSlots fuel (count + 1)
    else count

def SplitArgs.slotCount (args : SplitArgs) (format : NumberText) : ℕ :=
  growSlots (args.overBudget format) args.maxSlots (args.maxSlots - args.initialSlotCount)
    args.initialSlotCount

/-- The contexts of a primary slot once the thread and message entries are in it. -/
def withThreads (args : SplitArgs) (slot : List Entry) : List Entry :=
  args.threadMsgEntries.foldl assign slot

def splitContextsIntoBudgetedSlots (format : NumberText) (args : SplitArgs) :
    Option SlotSplitResult :=
  let slotCount := args.slotCount format
  if args.overBudget format slotCount then none
  else
    -- Whether the primary slot fits after the trim is not looked at.
    some
      { slots := (distribute args.channelEntries slotCount).modify 0 fun slot =>
          (trimContextsToBudget format (withThreads args slot) args.clientId args.maxBytes).1
        extraSlotIds := (List.range (slotCount - args.initialSlotCount)).map args.slotIdGenerator }

section Sizes

variable (format : NumberText) (clientId : String)

/-- What an entry adds to a blob, with its comma. -/
def entryCost (e : Entry) : ℕ :=
  textSize (entryText format e) + 1

def totalCost (entries : List Entry) : ℕ :=
  (entries.map (entryCost format)).sum

theorem blobBytes_eq (contexts : List Entry) : blobBytes format clientId contexts =
    blobBytes format clientId [] + ((contexts.map fun e => textSize (entryText format e)).sum +
      (contexts.length - 1)) := by
  simp only [blobBytes, blobFor, textSize_printObject, textSize_printMember, List.map_cons,
    List.map_nil, List.sum_cons, List.sum_nil, List.map_map, List.length_map, List.length_cons,
    List.length_nil, Function.comp_def]
  omega

theorem sum_entryText (contexts : List Entry) :
    totalCost format contexts =
      (contexts.map fun e => textSize (entryText format e)).sum + contexts.length := by
  induction contexts with
  | nil => rfl
  | cons e contexts ih =>
    rw [totalCost] at ih ⊢
    rw [List.map_cons, List.sum_cons, ih, List.map_cons, List.sum_cons, List.length_cons, entryCost]
    omega

/-- A blob that is not empty is one comma shorter than the cost of its entries. -/
theorem blobBytes_cost {contexts : List Entry} (h : contexts ≠ []) :
    blobBytes format clientId contexts + 1 =
      blobBytes format clientId [] + totalCost format contexts := by
  have hlen := List.length_pos_of_ne_nil h
  rw [blobBytes_eq, sum_entryText]
  omega

theorem blobBytes_nil_le (contexts : List Entry) :
    blobBytes format clientId [] ≤ blobBytes format clientId contexts := by
  rw [blobBytes_eq format clientId contexts]
  exact Nat.le_add_right _ _

theorem blobBytes_perm {contexts contexts' : List Entry} (h : contexts.Perm contexts') :
    blobBytes format clientId contexts = blobBytes format clientId contexts' := by
  rw [blobBytes_eq, blobBytes_eq format clientId contexts', h.length_eq,
    (h.map fun e => textSize (entryText format e)).sum_eq]

theorem totalCost_append (front back : List Entry) :
    totalCost format (front ++ back) = totalCost format front + totalCost format back := by
  rw [totalCost, List.map_append, List.sum_append]
  rfl

/-- A character takes no more code units than its escape takes bytes. -/
theorem utf16_le_escape (c : Char) :
    (if c.toNat < 65536 then 1 else 2) ≤ textSize (escapeChar c) := by
  cases escapeChar_cases c with
  | inl h =>
    obtain ⟨e, he, hparse⟩ := h
    cases e with
    | nil => cases hparse []
    | cons d e =>
      have hc := ('\\' : Char).utf8Size_pos
      have hd := d.utf8Size_pos
      rw [he, textSize_cons, textSize_cons]
      split
      · omega
      · omega
  | inr h =>
    rw [h.1, textSize_cons, textSize_nil, Nat.add_zero]
    split
    · exact c.utf8Size_pos
    · rename_i hlarge
      have hval : ¬ c.val ≤ 0x7F := by
        intro hle
        rw [UInt32.le_iff_toNat_le] at hle
        exact hlarge (lt_of_le_of_lt hle (by decide))
      have hone : c.utf8Size ≠ 1 := fun h1 => hval (Char.utf8Size_eq_one_iff.mp h1)
      have hpos := c.utf8Size_pos
      omega

/-- The estimate is never too high. -/
theorem estimate_le (e : Entry) : estimate format e ≤ entryCost format e := by
  have hkey : utf16Length e.1 ≤ textSize (e.1.toList.flatMap escapeChar) := by
    rw [utf16Length]
    induction e.1.toList with
    | nil => exact le_rfl
    | cons c cs ih =>
      have hc := utf16_le_escape c
      rw [List.map_cons, List.sum_cons, List.flatMap_cons, textSize_append]
      exact Nat.add_le_add hc ih
  have hq : textSize ['"'] = 1 := by decide
  have hq' : ('"' : Char).utf8Size = 1 := by decide
  rw [estimate, entryCost, entryText, textSize_printMember, printString, textSize_cons,
    textSize_append, textSize_of_ascii _ (format.ascii e.2)]
  omega

/-- It is exact for a key of one-byte characters that need no escape. -/
theorem estimate_eq {e : Entry} (h : Plain e.1.toList) :
    estimate format e = entryCost format e := by
  have hkey : utf16Length e.1 = e.1.utf8ByteSize := by
    rw [utf16Length, utf8ByteSize_eq, textSize]
    congr 1
    apply List.map_congr_left
    intro c hc
    have hone := (h c hc).2
    rw [hone]
    rw [Char.utf8Size_eq_one_iff, UInt32.le_iff_toNat_le] at hone
    exact if_pos (lt_of_le_of_lt hone (by decide))
  rw [estimate, entryCost, entryText, textSize_printMember, textSize_printString h,
    textSize_of_ascii _ (format.ascii e.2), hkey]

end Sizes

end Buzz.ReadState
