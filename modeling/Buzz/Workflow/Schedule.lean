import Buzz.Git.Store
import Buzz.Lib.Decimal

namespace Buzz.Workflow
set_option autoImplicit true

inductive WorkflowError where
  | invalidDefinition (message : String)
deriving DecidableEq

/-- Times are nanoseconds since the epoch. -/
def SECOND : Int := 1000000000

/-- The times of the calendar, from the year -262143 through the year 262142. -/
def Representable (t : Int) : Prop :=
  -8334601228800 * SECOND ≤ t ∧ t < 8210266876800 * SECOND

instance : DecidablePred Representable :=
  fun t => inferInstanceAs (Decidable (_ ∧ t < _))

/-- The whole seconds of a time, rounded down. -/
def timestamp (t : Int) : Int :=
  t / SECOND

def fromTimestamp (secs : Int) : Option Int :=
  if Representable (secs * SECOND) then some (secs * SECOND) else none

/-- A `u64` read as an `i64`. -/
def asI64 (n : Nat) : Int :=
  if n < 2 ^ 63 then n else n - 2 ^ 64

def stripSuffix (c : Char) (s : String) : Option String :=
  if s.toList.getLast? = some c then some (String.ofList s.toList.dropLast) else none

def parseU64 (duration n : String) : Except WorkflowError Nat :=
  match Decimal.parse (2 ^ 64) n.toList with
  | some k => .ok k
  | none => .error (.invalidDefinition ("invalid duration: " ++ duration))

def checkedMul (duration : String) (unit n : Nat) : Except WorkflowError Nat :=
  if n * unit < 2 ^ 64 then .ok (n * unit)
  else .error (.invalidDefinition ("duration overflow: " ++ duration))

def parseDurationSecs (duration : String) : Except WorkflowError Nat :=
  let duration := trim duration
  match stripSuffix 'h' duration with
  | some n => parseU64 duration (trim n) >>= checkedMul duration 3600
  | none =>
    match stripSuffix 'm' duration with
    | some n => parseU64 duration (trim n) >>= checkedMul duration 60
    | none =>
      match stripSuffix 's' duration with
      | some n => parseU64 duration (trim n)
      | none => parseU64 duration duration

/-- The cron library: what it reads as a schedule, the instants of a schedule, and the first of
those it gives after a time. -/
structure Cron where
  Schedule : Type
  parse : String → Except String Schedule
  instants : Schedule → Set Int
  next : Schedule → Int → Option Int

/-- The library gives the instants strictly after a time, the earliest first. -/
structure Cron.Lawful (cron : Cron) : Prop where
  next_some : cron.next sched t = some i → IsLeast {j ∈ cron.instants sched | t < j} i
  next_none : cron.next sched t = none → ∀ j ∈ cron.instants sched, j ≤ t

def fieldCount (expr : String) : Nat :=
  (expr.toList.splitOnP isWhitespace).countP (! ·.isEmpty)

/-- The seven fields that the library reads, from five, six or seven. -/
def normalizeCron (expr : String) : String :=
  match fieldCount expr with
  | 5 => "0 " ++ expr ++ " *"
  | 6 => expr ++ " *"
  | _ => expr

def validateCron (cron : Cron) (expr : String) : Except WorkflowError Unit :=
  match cron.parse (normalizeCron expr) with
  | .ok _ => .ok ()
  | .error e => .error (.invalidDefinition ("invalid cron expression '" ++ expr ++ "': " ++ e))

def validateInterval (dur : String) : Except WorkflowError Unit :=
  match parseDurationSecs dur with
  | .error _ => .error (.invalidDefinition ("invalid interval '" ++ dur ++
      "': expected a duration like '30m', '1h', or '60s'"))
  | .ok secs =>
    if secs < 60 then
      .error (.invalidDefinition "interval must be at least 60s (cron loop ticks every 60 seconds)")
    else .ok ()

/-- What `validate` checks of a schedule trigger. -/
def validateSchedule (lib : Cron) : Option String → Option String → Except WorkflowError Unit
  | none, none =>
    .error (.invalidDefinition "schedule trigger requires either 'cron' or 'interval'")
  | some _, some _ => .error (.invalidDefinition
      "schedule trigger cannot specify both 'cron' and 'interval'; use one or the other")
  | some expr, none => validateCron lib expr
  | none, some dur => validateInterval dur

/-- The schedule's instant in the window that ends now. -/
def cronFireInstant (cron : Cron) (expr : String) (now windowSecs : Int) : Option Int :=
  match cron.parse (normalizeCron expr) with
  | .ok sched => (cron.next sched (now - windowSecs * SECOND)).filter (· ≤ now)
  | .error _ => none

/-- The start of the bucket of the interval that `now` is in. -/
def intervalFireInstant (dur : String) (now : Int) : Option Int :=
  match parseDurationSecs dur with
  | .ok intervalSecs =>
    if 0 < intervalSecs then
      fromTimestamp (timestamp now / asI64 intervalSecs * asI64 intervalSecs)
    else none
  | .error _ => none

def intervalShouldFire (dur : String) (lastFired : Option Int) (now : Int) : Bool :=
  match parseDurationSecs dur with
  | .ok intervalSecs => intervalSecs ≤ ((now - lastFired.getD now).tdiv SECOND).natAbs
  | .error _ => false

/-- Whether the interval is over, and the anchor in memory after the question: a first tick with no
anchor at all sets it. -/
def intervalPrefilterShouldFire (lastFired : Option Int) (dur : String) (last : Option Int)
    (now : Int) : Bool × Option Int :=
  if intervalShouldFire dur last now then (true, lastFired)
  else if last.isNone then (false, some now)
  else (false, lastFired)

theorem validateCron_ok {cron : Cron} (h : validateCron cron expr = .ok ()) :
    ∃ sched, cron.parse (normalizeCron expr) = .ok sched := by
  rw [validateCron] at h
  split at h
  · rename_i sched hparse
    exact ⟨sched, hparse⟩
  · cases h

theorem validateInterval_ok (h : validateInterval dur = .ok ()) :
    ∃ secs, parseDurationSecs dur = .ok secs ∧ 60 ≤ secs := by
  rw [validateInterval] at h
  split at h
  · cases h
  · rename_i secs hparse
    split at h
    · cases h
    · exact ⟨secs, hparse, by omega⟩

theorem asI64_of_lt (h : n < 2 ^ 63) : asI64 n = n :=
  if_pos h

/-- A bucket of at most `2 ^ 63` seconds starts at a whole number of intervals. -/
theorem intervalFireInstant_eq_some (hparse : parseDurationSecs dur = .ok secs) (hlt : secs < 2 ^ 63)
    (h : intervalFireInstant dur now = some start) :
    start = now / (secs * SECOND) * (secs * SECOND) := by
  rw [intervalFireInstant, hparse] at h
  dsimp only at h
  split at h
  · rw [asI64_of_lt hlt, fromTimestamp, timestamp] at h
    split at h
    · have hdiv : now / SECOND / secs = now / (secs * SECOND) := by
        rw [Int.ediv_ediv_of_nonneg (by decide), Int.mul_comm]
      rw [← Option.some.inj h, hdiv, Int.mul_assoc]
    · cases h
  · cases h

theorem intervalFireInstant_representable (h : intervalFireInstant dur now = some start) :
    Representable start := by
  rw [intervalFireInstant] at h
  split at h
  · split at h
    · rw [fromTimestamp] at h
      split at h
      · rename_i hrepresentable
        cases h
        exact hrepresentable
      · cases h
    · cases h
  · cases h

theorem intervalPrefilterShouldFire_cases (lastFired : Option Int) (dur : String)
    (last : Option Int) (now : Int) :
    intervalPrefilterShouldFire lastFired dur last now = (true, lastFired) ∧
        intervalShouldFire dur last now = true ∨
      intervalPrefilterShouldFire lastFired dur last now = (false, some now) ∨
      intervalPrefilterShouldFire lastFired dur last now = (false, lastFired) := by
  rw [intervalPrefilterShouldFire]
  split
  · rename_i h
    exact .inl ⟨rfl, h⟩
  · split
    · exact .inr (.inl rfl)
    · exact .inr (.inr rfl)

/-- When the interval is over, it is as long as the calendar at most. -/
theorem intervalShouldFire_lt (hnow : Representable now) (hlast : ∀ t ∈ last, Representable t)
    (hparse : parseDurationSecs dur = .ok secs) (h : intervalShouldFire dur last now = true) :
    secs < 2 ^ 63 := by
  have hrepresentable : Representable (last.getD now) := by
    cases last with
    | none => exact hnow
    | some t => exact hlast t rfl
  rw [intervalShouldFire, hparse] at h
  have hle := of_decide_eq_true h
  have hdiff : (now - last.getD now).natAbs < 8334601228800 * 1000000000 * 2 := by
    rw [Representable, SECOND] at hnow hrepresentable
    omega
  have hsecs : ((now - last.getD now).tdiv SECOND).natAbs = (now - last.getD now).natAbs / 1000000000 :=
    Int.natAbs_tdiv _ _
  rw [hsecs] at hle
  omega

end Buzz.Workflow
