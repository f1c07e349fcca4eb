import Buzz.Lib.Decimal

namespace Buzz
set_option autoImplicit true

/-- A value with the time in milliseconds at which it is gone. -/
structure Entry where
  value : List Char
  expiresAt : Option Nat
deriving DecidableEq

/-- The keys of a Redis database. -/
def Redis : Type :=
  List Char → Option Entry

inductive RedisError where
  | notAnInteger
  | overflow
  | io (text : String)
deriving DecidableEq

namespace Redis

def writeInt : Int → List Char
  | .ofNat n => Decimal.write n
  | .negSucc n => '-' :: Decimal.write (n + 1)

/-- An integer of 64 bits, read only as it is written. -/
def readInt (cs : List Char) : Option Int :=
  match cs with
  | '-' :: ds =>
    match Decimal.parse (2 ^ 63 + 1) ds with
    | some n => if writeInt (-n) = cs then some (-n) else none
    | none => none
  | ds =>
    match Decimal.parse (2 ^ 63) ds with
    | some n => if writeInt n = cs then some n else none
    | none => none

def isLive (now : Nat) (e : Entry) : Bool :=
  match e.expiresAt with
  | some t => now < t
  | none => true

def get (now : Nat) (key : List Char) (r : Redis) : Option (List Char) :=
  match r key with
  | some e => if isLive now e then some e.value else none
  | none => none

def set (key : List Char) (e : Entry) (r : Redis) : Redis :=
  Function.update r key (some e)

def del (key : List Char) (r : Redis) : Redis :=
  Function.update r key none

/-- `SET key value PX ttl`. -/
def setPx (now : Nat) (key value : List Char) (ttl : Nat) (r : Redis) : Redis :=
  r.set key ⟨value, some (now + ttl)⟩

def pexpire (now : Nat) (key : List Char) (ttl : Nat) (r : Redis) : Redis :=
  match r.get now key with
  | some value => r.set key ⟨value, some (now + ttl)⟩
  | none => r

/-- A missing key counts from zero, and a key that has a deadline keeps it. -/
def incr (now : Nat) (key : List Char) (r : Redis) : Except RedisError (Int × Redis) :=
  match r.get now key with
  | none => .ok (1, r.set key ⟨writeInt 1, none⟩)
  | some value =>
    match readInt value with
    | none => .error .notAnInteger
    | some n =>
      if 2 ^ 63 - 1 ≤ n then .error .overflow
      else .ok (n + 1, r.set key ⟨writeInt (n + 1), (r key).bind Entry.expiresAt⟩)

/-- The text that a script gets for an integer, which it holds as a double. -/
def tostring : Int → List Char
  | .ofNat n => Decimal.writeG (Decimal.toDouble n)
  | .negSucc n => '-' :: Decimal.writeG (Decimal.toDouble (n + 1))

variable {r : Redis} {key k : List Char}

@[simp] theorem set_self (e : Entry) : r.set key e key = some e :=
  Function.update_self ..

theorem set_of_ne (h : k ≠ key) (e : Entry) : r.set key e k = r k :=
  Function.update_of_ne h ..

@[simp] theorem del_self : r.del key key = none :=
  Function.update_self ..

theorem del_of_ne (h : k ≠ key) : r.del key k = r k :=
  Function.update_of_ne h ..

theorem get_eq_some (h : r.get now key = some value) :
    ∃ e, r key = some e ∧ e.value = value := by
  unfold get at h
  split at h
  · rename_i e he
    split at h
    · exact ⟨e, he, Option.some.inj h⟩
    · cases h
  · cases h

theorem get_of_persistent (h : r key = some ⟨value, none⟩) : r.get now key = some value := by
  unfold get
  rw [h]
  rfl

theorem get_of_none (h : r key = none) : r.get now key = none := by
  unfold get
  rw [h]

theorem readInt_write (h : n < 2 ^ 63) : readInt (Decimal.write n) = some (n : Int) := by
  have hparse := Decimal.parse_write h
  have hwrite : writeInt (n : Int) = Decimal.write n := rfl
  unfold readInt
  split
  · rename_i ds heq
    have hmem : '-' ∈ Decimal.write n := by
      rw [heq]
      exact List.mem_cons_self
    exact (Decimal.not_mem_write (by decide) hmem).elim
  · simp only [hparse, hwrite, if_true]

/-- What counting does to a key that counts and has no deadline. -/
theorem incr_of_counter (h : r key = some ⟨Decimal.write n, none⟩) (hn : n < 2 ^ 63 - 1) :
    r.incr now key = .ok (((n + 1 : Nat) : Int), r.set key ⟨Decimal.write (n + 1), none⟩) := by
  have hread : readInt (Decimal.write n) = some (n : Int) := readInt_write (by omega)
  have hnot : ¬(2 ^ 63 - 1 : Int) ≤ n := by omega
  rw [incr, get_of_persistent h]
  dsimp only
  rw [hread]
  dsimp only
  rw [if_neg hnot, h]
  rfl

theorem incr_of_full (h : r key = some ⟨Decimal.write n, none⟩) (hn : n = 2 ^ 63 - 1) :
    r.incr now key = .error .overflow := by
  have hread : readInt (Decimal.write n) = some (n : Int) := readInt_write (by omega)
  have hfull : (2 ^ 63 - 1 : Int) ≤ n := by omega
  rw [incr, get_of_persistent h]
  dsimp only
  rw [hread]
  dsimp only
  rw [if_pos hfull]

theorem incr_of_ne (h : r.incr now key = .ok (n, r')) (hk : k ≠ key) : r' k = r k := by
  unfold incr at h
  split at h
  · cases h
    exact set_of_ne hk _
  · split at h
    · cases h
    · split at h
      · cases h
      · cases h
        exact set_of_ne hk _

theorem pexpire_of_ne (hk : k ≠ key) : r.pexpire now key ttl k = r k := by
  unfold pexpire
  cases r.get now key with
  | none => rfl
  | some value => exact set_of_ne hk _

/-- A new deadline leaves the value as it is. -/
theorem map_value_pexpire :
    (r.pexpire now key ttl key).map Entry.value = (r key).map Entry.value := by
  unfold pexpire
  cases hget : r.get now key with
  | none => rfl
  | some value =>
    obtain ⟨e, he, rfl⟩ := get_eq_some hget
    dsimp only
    rw [set_self, he]
    rfl

theorem incr_of_none (h : r key = none) :
    r.incr now key = .ok (1, r.set key ⟨Decimal.write 1, none⟩) := by
  rw [incr, get_of_none h]
  rfl

end Redis

end Buzz
