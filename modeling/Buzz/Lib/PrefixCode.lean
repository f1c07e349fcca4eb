import Buzz.Lib.Utf8

namespace Buzz
set_option autoImplicit true

/-- No word of the code goes on as another word: a reader knows where a word ends. -/
def PrefixCode (f : α → List β) : Prop :=
  ∀ a b x y, f a ++ x = f b ++ y → a = b

namespace PrefixCode

variable {f : α → List β}

theorem cut (hf : PrefixCode f) (h : f a ++ x = f b ++ y) : a = b ∧ x = y := by
  obtain rfl := hf a b x y h
  exact ⟨rfl, List.append_cancel_left h⟩

theorem of_length (hinj : Function.Injective f) (hlen : ∀ a b, (f a).length = (f b).length) :
    PrefixCode f := by
  intro a b x y h
  exact hinj (List.append_inj_left h (hlen a b))

/-- A word ends at the first letter that words do not have. -/
theorem eq_of_terminated {u v : List β} (hu : stop ∉ u) (hv : stop ∉ v)
    (h : u ++ stop :: x = v ++ stop :: y) : u = v ∧ x = y := by
  induction u generalizing v with
  | nil =>
    cases v with
    | nil => exact ⟨rfl, List.tail_eq_of_cons_eq h⟩
    | cons c v =>
      rw [List.nil_append, List.cons_append, List.cons.injEq] at h
      rw [h.1] at hv
      exact (hv List.mem_cons_self).elim
  | cons b u ih =>
    cases v with
    | nil =>
      rw [List.nil_append, List.cons_append, List.cons.injEq] at h
      rw [← h.1] at hu
      exact (hu List.mem_cons_self).elim
    | cons c v =>
      rw [List.cons_append, List.cons_append, List.cons.injEq] at h
      obtain ⟨rfl, h⟩ := h
      obtain ⟨rfl, hrest⟩ := ih (fun hm => hu (List.mem_cons_of_mem _ hm))
        (fun hm => hv (List.mem_cons_of_mem _ hm)) h
      exact ⟨rfl, hrest⟩

/-- Two texts whose encodings start alike start alike themselves. -/
theorem prefix_or_prefix {enc : β → List γ} (henc : PrefixCode enc) {u v : List β}
    (h : u.flatMap enc ++ x = v.flatMap enc ++ y) : u <+: v ∨ v <+: u := by
  induction u generalizing v with
  | nil => exact .inl (List.nil_prefix)
  | cons b u ih =>
    cases v with
    | nil => exact .inr (List.nil_prefix)
    | cons c v =>
      rw [List.flatMap_cons, List.flatMap_cons, List.append_assoc, List.append_assoc] at h
      obtain ⟨rfl, hrest⟩ := henc.cut h
      rcases ih hrest with hp | hp
      · exact .inl (List.cons_prefix_cons.mpr ⟨rfl, hp⟩)
      · exact .inr (List.cons_prefix_cons.mpr ⟨rfl, hp⟩)

/-- Writing the letters of a code in another code gives a code. -/
theorem flatMap {enc : β → List γ} (hf : PrefixCode f) (henc : PrefixCode enc) :
    PrefixCode fun a => (f a).flatMap enc := by
  intro a b x y h
  rcases henc.prefix_or_prefix h with ⟨w, hw⟩ | ⟨w, hw⟩
  · exact hf a b w [] (by rw [hw, List.append_nil])
  · exact hf a b [] w (by rw [hw, List.append_nil])

end PrefixCode

/-- A text in UTF-8. -/
def utf8Bytes (cs : List Char) : List UInt8 :=
  cs.flatMap String.utf8EncodeChar

theorem prefixCode_utf8EncodeChar : PrefixCode String.utf8EncodeChar := by
  intro c d x y h
  have hc : ByteArray.utf8DecodeChar? (String.utf8EncodeChar c ++ x).toByteArray 0 = some c := by
    rw [List.toByteArray_append]
    exact ByteArray.utf8DecodeChar?_utf8EncodeChar_append
  have hd : ByteArray.utf8DecodeChar? (String.utf8EncodeChar d ++ y).toByteArray 0 = some d := by
    rw [List.toByteArray_append]
    exact ByteArray.utf8DecodeChar?_utf8EncodeChar_append
  rw [h, hd] at hc
  exact (Option.some.inj hc).symm

@[simp]
theorem utf8Bytes_append (cs ds : List Char) : utf8Bytes (cs ++ ds) = utf8Bytes cs ++ utf8Bytes ds :=
  List.flatMap_append

theorem utf8Bytes_injective : Function.Injective utf8Bytes := by
  intro cs ds h
  induction cs generalizing ds with
  | nil =>
    cases ds with
    | nil => rfl
    | cons d ds =>
      have hne := String.utf8EncodeChar_ne_nil (c := d)
      rw [utf8Bytes, utf8Bytes, List.flatMap_nil, List.flatMap_cons] at h
      exact (hne (List.append_eq_nil_iff.mp h.symm).1).elim
  | cons c cs ih =>
    cases ds with
    | nil =>
      have hne := String.utf8EncodeChar_ne_nil (c := c)
      rw [utf8Bytes, utf8Bytes, List.flatMap_nil, List.flatMap_cons] at h
      exact (hne (List.append_eq_nil_iff.mp h).1).elim
    | cons d ds =>
      rw [utf8Bytes, utf8Bytes, List.flatMap_cons, List.flatMap_cons] at h
      obtain ⟨rfl, hrest⟩ := prefixCode_utf8EncodeChar.cut h
      rw [ih hrest]

theorem length_utf8Bytes (cs : List Char) : (utf8Bytes cs).length = textSize cs := by
  induction cs with
  | nil => rfl
  | cons c cs ih =>
    have hcons : utf8Bytes (c :: cs) = String.utf8EncodeChar c ++ utf8Bytes cs := List.flatMap_cons
    rw [hcons, List.length_append, String.length_utf8EncodeChar, ih, textSize_cons]

theorem toByteArray_utf8Bytes (s : String) : (utf8Bytes s.toList).toByteArray = s.toByteArray := by
  have hbytes : (String.ofList s.toList).toByteArray = s.toList.utf8Encode := String.toByteArray_ofList
  rw [String.ofList_toList] at hbytes
  rw [hbytes]
  rfl

/-- Bytes are the text that they are read as. -/
theorem fromUTF8_eq_some_iff {bytes : List UInt8} {s : String} :
    String.fromUTF8? bytes.toByteArray = some s ↔ bytes = utf8Bytes s.toList := by
  constructor
  · intro h
    rw [String.fromUTF8?] at h
    split at h
    · apply List.toByteArray_inj.mp
      rw [toByteArray_utf8Bytes, ← Option.some.inj h]
      rfl
    · cases h
  · rintro rfl
    rw [toByteArray_utf8Bytes]
    exact fromUTF8_toUTF8 s

/-- A byte below 128 stands for a character of its own. -/
theorem toNat_of_mem_utf8EncodeChar {n : ℕ} (hn : n < 128) (h : UInt8.ofNat n ∈ String.utf8EncodeChar c) :
    c.toNat = n := by
  have hval {m : ℕ} (hm : m < 256) (heq : UInt8.ofNat n = UInt8.ofNat m) : n = m := by
    have htoNat := congrArg UInt8.toNat heq
    rw [UInt8.toNat_ofNat', UInt8.toNat_ofNat'] at htoNat
    omega
  have hsame : c.val.toNat = c.toNat := rfl
  rw [String.utf8EncodeChar] at h
  split_ifs at h with hone
  · obtain rfl := hval (by omega) (List.mem_singleton.mp h)
    rfl
  all_goals simp only [List.mem_cons, List.not_mem_nil, or_false] at h
  · rcases h with h | h
    all_goals
      have hbyte := hval (by omega) h
      omega
  · rcases h with h | h | h
    all_goals
      have hbyte := hval (by omega) h
      omega
  · rcases h with h | h | h | h
    all_goals
      have hbyte := hval (by omega) h
      omega

theorem mem_of_mem_utf8Bytes {cs : List Char} {n : ℕ} (hn : n < 128)
    (h : UInt8.ofNat n ∈ utf8Bytes cs) : ∃ c ∈ cs, c.toNat = n := by
  obtain ⟨c, hc, hmem⟩ := List.mem_flatMap.mp h
  exact ⟨c, hc, toNat_of_mem_utf8EncodeChar hn hmem⟩

/-- A number in base 256 with `w` digits. -/
def beBytes : Nat → Nat → List UInt8
  | 0, _ => []
  | w + 1, n => beBytes w (n / 256) ++ [UInt8.ofNat (n % 256)]

@[simp]
theorem length_beBytes (w n : Nat) : (beBytes w n).length = w := by
  induction w generalizing n with
  | zero => rfl
  | succ w ih => rw [beBytes, List.length_append, ih, List.length_singleton]

theorem beBytes_inj (hm : m < 256 ^ w) (hn : n < 256 ^ w) (h : beBytes w m = beBytes w n) :
    m = n := by
  induction w generalizing m n with
  | zero => omega
  | succ w ih =>
    rw [beBytes, beBytes, List.append_singleton_inj] at h
    have hlow : m % 256 = n % 256 := by
      have hb := congrArg UInt8.toNat h.2
      rwa [UInt8.toNat_ofNat_of_lt' (Nat.mod_lt _ (by decide)),
        UInt8.toNat_ofNat_of_lt' (Nat.mod_lt _ (by decide))] at hb
    have hhigh : m / 256 = n / 256 := by
      apply ih _ _ h.1
      · exact Nat.div_lt_of_lt_mul (by rwa [pow_succ, Nat.mul_comm] at hm)
      · exact Nat.div_lt_of_lt_mul (by rwa [pow_succ, Nat.mul_comm] at hn)
    omega

/-- `to_be_bytes` of an `i64`. -/
def int64Bytes (i : Int64) : List UInt8 :=
  beBytes 8 i.toUInt64.toNat

theorem prefixCode_int64Bytes : PrefixCode int64Bytes := by
  apply PrefixCode.of_length
  · intro i j h
    have hn := beBytes_inj i.toUInt64.toNat_lt j.toUInt64.toNat_lt h
    have hu : i.toUInt64 = j.toUInt64 := UInt64.toNat_inj.mp hn
    cases i
    cases j
    exact congrArg Int64.ofUInt64 hu
  · intro i j
    rw [int64Bytes, int64Bytes, length_beBytes, length_beBytes]

/-- The bytes of hexadecimal digits. -/
def nibbleBytes : List (Fin 16) → List UInt8
  | a :: b :: ns => UInt8.ofNat (16 * a.val + b.val) :: nibbleBytes ns
  | _ => []

theorem nibbleBytes_inj (m : Nat) {ns ms : List (Fin 16)} (hn : ns.length = 2 * m)
    (hm : ms.length = 2 * m) (h : nibbleBytes ns = nibbleBytes ms) : ns = ms := by
  induction m generalizing ns ms with
  | zero => rw [List.eq_nil_of_length_eq_zero hn, List.eq_nil_of_length_eq_zero hm]
  | succ m ih =>
    obtain ⟨a, b, ns, rfl⟩ : ∃ a b l, ns = a :: b :: l := by
      match ns, hn with
      | a :: b :: l, _ => exact ⟨a, b, l, rfl⟩
    obtain ⟨c, d, ms, rfl⟩ : ∃ c d l, ms = c :: d :: l := by
      match ms, hm with
      | c :: d :: l, _ => exact ⟨c, d, l, rfl⟩
    rw [nibbleBytes, nibbleBytes, List.cons.injEq] at h
    have hb := congrArg UInt8.toNat h.1
    rw [UInt8.toNat_ofNat_of_lt' (by have := a.isLt; have := b.isLt; simp only [UInt8.size]; omega),
      UInt8.toNat_ofNat_of_lt' (by have := c.isLt; have := d.isLt; simp only [UInt8.size]; omega)]
      at hb
    have hlow : b = d := Fin.ext (by have := b.isLt; have := d.isLt; omega)
    have hhigh : a = c := Fin.ext (by have := b.isLt; have := d.isLt; omega)
    simp only [List.length_cons] at hn hm
    rw [hlow, hhigh, ih (by omega) (by omega) h.2]

theorem length_nibbleBytes (m : Nat) {ns : List (Fin 16)} (hn : ns.length = 2 * m) :
    (nibbleBytes ns).length = m := by
  induction m generalizing ns with
  | zero =>
    rw [List.eq_nil_of_length_eq_zero hn]
    rfl
  | succ m ih =>
    match ns, hn with
    | _ :: _ :: l, hn =>
      simp only [List.length_cons] at hn
      rw [nibbleBytes, List.length_cons, ih (by omega)]

/-- The bytes that the digits of an identifier stand for. -/
def HexId.toBytes (x : HexId n) : List UInt8 :=
  nibbleBytes x.nibbles

theorem HexId.prefixCode_toBytes (m : Nat) : PrefixCode (HexId.toBytes (n := 2 * m)) := by
  apply PrefixCode.of_length
  · intro x y h
    exact HexId.ext (nibbleBytes_inj m x.length_eq y.length_eq h)
  · intro x y
    rw [HexId.toBytes, HexId.toBytes, length_nibbleBytes m x.length_eq,
      length_nibbleBytes m y.length_eq]

/-- A text can be cut on both sides of a byte below 128. -/
theorem utf8Bytes_cut {cs : List Char} {before after : List UInt8} {n : ℕ} (hn : n < 128)
    (h : utf8Bytes cs = before ++ UInt8.ofNat n :: after) :
    ∃ cs₁ cs₂, before = utf8Bytes cs₁ ∧ after = utf8Bytes cs₂ := by
  induction cs generalizing before with
  | nil => exact absurd h.symm (List.append_ne_nil_of_right_ne_nil _ (List.cons_ne_nil _ _))
  | cons c cs ih =>
    have hcons : utf8Bytes (c :: cs) = String.utf8EncodeChar c ++ utf8Bytes cs := List.flatMap_cons
    rw [hcons, List.append_eq_append_iff] at h
    rcases h with ⟨mid, rfl, hrest⟩ | ⟨mid, hchar, hrest⟩
    · obtain ⟨cs₁, cs₂, rfl, rfl⟩ := ih hrest
      exact ⟨c :: cs₁, cs₂, List.flatMap_cons.symm, rfl⟩
    · cases mid with
      | nil =>
        obtain ⟨cs₁, cs₂, _, rfl⟩ := @ih [] hrest.symm
        refine ⟨[c], cs₂, ?_, rfl⟩
        rw [List.append_nil] at hchar
        rw [← hchar, utf8Bytes, List.flatMap_singleton]
      | cons b mid =>
        rw [List.cons_append, List.cons.injEq] at hrest
        obtain ⟨rfl, rfl⟩ := hrest
        have hmem : UInt8.ofNat n ∈ String.utf8EncodeChar c := by
          rw [hchar]
          exact List.mem_append_right _ List.mem_cons_self
        -- a character with such a byte has no other byte
        have hlen := congrArg List.length hchar
        have hone : c.utf8Size = 1 := by
          apply Char.utf8Size_eq_one_iff.mpr
          have hval : c.val.toNat = n := toNat_of_mem_utf8EncodeChar hn hmem
          rw [UInt32.le_iff_toNat_le, hval]
          exact Nat.le_of_lt_succ hn
        rw [String.length_utf8EncodeChar, hone, List.length_append, List.length_cons] at hlen
        have hbefore : before = [] := List.length_eq_zero_iff.mp (by omega)
        have hmid : mid = [] := List.length_eq_zero_iff.mp (by omega)
        subst hbefore hmid
        exact ⟨[], cs, rfl, rfl⟩

end Buzz
