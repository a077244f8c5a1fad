-- SUMMARY: Schedules of the daemon's jobs, which of them are accepted, and when a job runs next.
import FlyCockpit.Lib.Text

/-!
# Schedules

A job runs at the occurrences of a cron expression, in equal intervals, once, or when the user has
been idle for a while. Cron expressions are checked against a grammar of the product's own before
the cron library sees them. All times are seconds of a 64 bit clock.
-/

namespace FlyCockpit.Scheduler

/-! ## Types -/

inductive MissedRunPolicy
  | skip
  | runOnceOnStart
  deriving DecidableEq, Repr

inductive ScheduledJobSchedule
  | cron (expr : Text)
  | every (seconds : UInt64)
  | once (time : Int)
  | idle (minIdleSeconds maxAgeSeconds : UInt64)
  deriving DecidableEq, Repr

/-- The fields of a cron expression, by the names error messages give them. -/
inductive CronField
  | minute
  | hour
  | dayOfMonth
  | month
  | dayOfWeek
  deriving DecidableEq, Repr

inductive ScheduleError
  | unsupportedMacro (name : Text)
  | fieldCount
  | fieldEmpty (field : CronField)
  | stepSyntax (field : CronField)
  | stepNotNumeric (field : CronField)
  | stepZero (field : CronField)
  | onlyNumeric (field : CronField)
  | notAnInteger
  | outside (field : CronField) (value low high : Nat)
  | rangeOrder (field : CronField)
  | invalidCron (expr : Text)
  | noOccurrence
  | everyZero
  | idleZero
  | everyTooLarge
  | minIdleTooLarge
  | maxAgeTooLarge
  deriving DecidableEq, Repr

/-- The cron library: which expressions it parses, and the first occurrence behind a timestamp, if
the timestamp is a date and there is one. -/
structure Cron where
  parses : Text → Bool
  next : Text → Int → Option Int

/-! ## Cron expressions -/

/-- `str::parse::<u32>`, which allows a plus sign. -/
def parseU32 (raw : Text) : Option Nat :=
  let digits := if raw.head? = some '+' then raw.tail else raw
  if digits ≠ [] ∧ digits.all Char.isDigit then
    let value := digits.foldl (fun n c => 10 * n + (c.toNat - '0'.toNat)) 0
    if value < 2 ^ 32 then some value else none
  else none

def normalizeCronExpr (expr : Text) : Except ScheduleError Text :=
  let trimmed := Text.trim expr
  if trimmed = "@hourly".toList then .ok "0 * * * *".toList
  else if trimmed = "@daily".toList then .ok "0 0 * * *".toList
  else if trimmed = "@weekly".toList then .ok "0 0 * * 0".toList
  else if trimmed = "@monthly".toList then .ok "0 0 1 * *".toList
  else if trimmed.head? = some '@' then .error (.unsupportedMacro trimmed)
  else .ok trimmed

def checkNum (raw : Text) (low high : Nat) (field : CronField) : Except ScheduleError Nat :=
  if raw = [] ∨ ¬raw.all Char.isDigit then .error (.onlyNumeric field)
  else match parseU32 raw with
    | none => .error .notAnInteger
    | some value => if low ≤ value ∧ value ≤ high then .ok value else .error (.outside field value low high)

/-- A step is allowed behind a star only. -/
def checkStep (range : Text) (step : Option Text) (field : CronField) : Except ScheduleError Unit :=
  match step with
  | none => .ok ()
  | some step =>
    if range ≠ ['*'] then .error (.stepSyntax field)
    else match parseU32 step with
      | none => .error (.stepNotNumeric field)
      | some 0 => .error (.stepZero field)
      | some _ => .ok ()

def validateCronPart (part : Text) (low high : Nat) (field : CronField) : Except ScheduleError Unit := do
  let (range, step) := match Text.splitOnce '/' part with
    | some (range, step) => (range, some step)
    | none => (part, none)
  checkStep range step field
  if range = ['*'] then return ()
  match Text.splitOnce '-' range with
  | some (first, last) =>
    let first ← checkNum first low high field
    let last ← checkNum last low high field
    if last < first then throw (.rangeOrder field)
  | none => discard (checkNum range low high field)

def validateCronField (text : Text) (low high : Nat) (field : CronField) : Except ScheduleError Unit := do
  if text = [] then throw (.fieldEmpty field)
  (text.splitOn ',').forM fun part => validateCronPart part low high field

def validateProductCron (expr : Text) : Except ScheduleError Unit :=
  match Text.splitWhitespace expr with
  | [minute, hour, dayOfMonth, month, dayOfWeek] => do
    validateCronField minute 0 59 .minute
    validateCronField hour 0 23 .hour
    validateCronField dayOfMonth 1 31 .dayOfMonth
    validateCronField month 1 12 .month
    validateCronField dayOfWeek 0 7 .dayOfWeek
  | _ => .error .fieldCount

/-- The expression the cron library is given. -/
def productCron (cron : Cron) (expr : Text) : Except ScheduleError Text := do
  let expr ← normalizeCronExpr expr
  validateProductCron expr
  if cron.parses expr then return expr else throw (.invalidCron expr)

example : validateProductCron "*/5 9-17 * * 1,3".toList = .ok () := by decide

example : validateProductCron "1/5 * * * *".toList = .error (.stepSyntax .minute) := by decide

/-! ## Accepted schedules -/

def validateSchedule (cron : Cron) : ScheduledJobSchedule → Except ScheduleError Unit
  | .cron expr => discard (productCron cron expr)
  | .every seconds => if seconds = 0 then .error .everyZero else .ok ()
  | .once _ => .ok ()
  | .idle minIdleSeconds maxAgeSeconds =>
    if minIdleSeconds = 0 ∨ maxAgeSeconds = 0 then .error .idleZero else .ok ()

/-! ## The next run -/

def i64Max : Int := 9223372036854775807

def i64Min : Int := -9223372036854775808

def saturatingAdd (a b : Int) : Int := max i64Min (min (a + b) i64Max)

/-- `i64::try_from` of an unsigned number. -/
def toI64 (n : UInt64) (error : ScheduleError) : Except ScheduleError Int :=
  if (n.toNat : Int) ≤ i64Max then .ok n.toNat else .error error

def computeNextRun (cron : Cron) (schedule : ScheduledJobSchedule) (now : Int) (lastRunAt : Option Int)
    (createdAt lastUserActivity : Int) (missedPolicy : MissedRunPolicy) (storedNext : Option Int) :
    Except ScheduleError (Option Int) :=
  if storedNext.any (now ≤ ·) then .ok storedNext
  else if storedNext.any (· ≤ now) ∧ missedPolicy = .runOnceOnStart then .ok (some now)
  else match schedule with
    | .cron expr => do
      let expr ← productCron cron expr
      match cron.next expr now with
      | some time => return some time
      | none => throw .noOccurrence
    | .every seconds => do
      let seconds ← toI64 seconds .everyTooLarge
      let base := max (lastRunAt.getD createdAt) now
      return some (saturatingAdd base seconds)
    | .once time =>
      if now < time ∨ lastRunAt = none ∧ missedPolicy = .runOnceOnStart then .ok (some (max time now))
      else .ok none
    | .idle minIdleSeconds maxAgeSeconds => do
      let minIdle ← toI64 minIdleSeconds .minIdleTooLarge
      let maxAge ← toI64 maxAgeSeconds .maxAgeTooLarge
      let ageBase := lastRunAt.getD createdAt
      return some (min (saturatingAdd lastUserActivity minIdle) (saturatingAdd ageBase maxAge))

end FlyCockpit.Scheduler
