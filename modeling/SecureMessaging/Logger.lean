import SecureMessaging.Lib.Containers

namespace SecureMessaging

/-- `Logger::Level`, in the order of the enumeration. -/
inductive Level
  | fatal
  | error
  | warn
  | info
  | debug
  | trace
  deriving DecidableEq

namespace Level

/-- The value behind an enumerator, which is what `>` compares. -/
def value : Level → Nat
  | fatal => 0
  | error => 1
  | warn => 2
  | info => 3
  | debug => 4
  | trace => 5

theorem trace_above_info : ¬trace.value < info.value := by decide

def tag : Level → List UInt8
  | fatal => asciiBytes "[FATAL] "
  | error => asciiBytes "[ERROR] "
  | warn => asciiBytes "[WARN]  "
  | info => asciiBytes "[INFO]  "
  | debug => asciiBytes "[DEBUG] "
  | trace => asciiBytes "[TRACE] "

end Level

/-- A call of one of the methods `Fatal` to `Trace`. -/
structure LogEntry where
  level : Level
  message : List UInt8
  deriving DecidableEq

def LogEntry.line (entry : LogEntry) : List UInt8 := entry.level.tag ++ entry.message ++ asciiBytes "\n"

/-- The text is what the target got so far; `none` is no target. -/
structure Logger where
  target : Option (List UInt8)
  minLevel : Level

namespace Logger

/-- `_instance` before `main`. -/
def init : Logger := ⟨none, .trace⟩

def setTarget (logger : Logger) : Logger := { logger with target := some [] }

def setLevel (logger : Logger) (level : Level) : Logger := { logger with minLevel := level }

def write (logger : Logger) (entry : LogEntry) : Logger :=
  match logger.target with
  | none => logger
  | some text =>
    if entry.level.value > logger.minLevel.value then logger
    else { logger with target := some (text ++ entry.level.tag ++ entry.message ++ asciiBytes "\n") }

def writeAll (logger : Logger) (entries : List LogEntry) : Logger := entries.foldl write logger

/-- What a target gets of some entries. -/
def shown (minLevel : Level) (entries : List LogEntry) : List UInt8 :=
  (entries.filter fun entry => decide (entry.level.value ≤ minLevel.value)).flatMap LogEntry.line

def errorText (messages : List (List UInt8)) : List UInt8 :=
  messages.flatMap fun message => LogEntry.line ⟨.error, message⟩

variable {logger : Logger} {entries : List LogEntry} {entry : LogEntry} {text : List UInt8}

theorem write_minLevel (logger : Logger) (entry : LogEntry) : (logger.write entry).minLevel = logger.minLevel := by
  unfold write
  split
  · rfl
  · split <;> rfl

theorem write_target (logger : Logger) (entry : LogEntry) :
    (logger.write entry).target = logger.target.map (· ++ shown logger.minLevel [entry]) := by
  unfold write
  cases ht : logger.target with
  | none => exact ht
  | some text =>
    dsimp only
    by_cases hlevel : entry.level.value ≤ logger.minLevel.value
    · simp [shown, hlevel, Nat.not_lt.mpr hlevel, LogEntry.line]
    · simp [shown, hlevel, Nat.lt_of_not_le hlevel, ht]

theorem writeAll_minLevel (logger : Logger) (entries : List LogEntry) :
    (logger.writeAll entries).minLevel = logger.minLevel := by
  induction entries generalizing logger with
  | nil => rfl
  | cons entry entries ih => exact (ih (logger.write entry)).trans (write_minLevel logger entry)

theorem shown_append (minLevel : Level) (entries entries' : List LogEntry) :
    shown minLevel (entries ++ entries') = shown minLevel entries ++ shown minLevel entries' := by
  simp only [shown, List.filter_append, List.flatMap_append]

theorem writeAll_target (logger : Logger) (entries : List LogEntry) :
    (logger.writeAll entries).target = logger.target.map (· ++ shown logger.minLevel entries) := by
  induction entries generalizing logger with
  | nil =>
    have hnone : logger.writeAll [] = logger := rfl
    rw [hnone]
    cases logger.target <;> simp [shown]
  | cons entry entries ih =>
    have hcons : shown logger.minLevel (entry :: entries) = shown logger.minLevel [entry] ++ _ :=
      shown_append logger.minLevel [entry] entries
    have hstep : (logger.writeAll (entry :: entries)).target = _ := ih (logger.write entry)
    rw [hstep, write_minLevel, write_target, hcons, Option.map_map]
    cases logger.target <;> simp

theorem errorText_append (messages messages' : List (List UInt8)) :
    errorText (messages ++ messages') = errorText messages ++ errorText messages' :=
  List.flatMap_append

/-- An entry up to the level is in the text. -/
theorem infix_of_shown {minLevel : Level} (hentry : entry ∈ entries)
    (hlevel : entry.level.value ≤ minLevel.value) : entry.line <:+: shown minLevel entries := by
  obtain ⟨before, after, rfl⟩ := List.append_of_mem hentry
  have hkept : shown minLevel (entry :: after) = entry.line ++ shown minLevel after := by
    simp [shown, hlevel]
  rw [shown_append, hkept, ← List.append_assoc]
  exact List.infix_append _ _ _

/-- If only errors pass the level, the text is that of some errors. -/
theorem shown_errors {P : List UInt8 → Prop} {minLevel : Level} (h : ∀ entry ∈ entries,
    entry.level.value ≤ minLevel.value → entry.level = .error ∧ P entry.message) :
    ∃ messages : List (List UInt8), (∀ message ∈ messages, P message) ∧ shown minLevel entries = errorText messages := by
  have hkept : ∀ entry ∈ entries.filter fun entry => decide (entry.level.value ≤ minLevel.value),
      entry.level = .error ∧ P entry.message := by
    intro entry hentry
    obtain ⟨hmem, hpass⟩ := List.mem_filter.mp hentry
    exact h entry hmem (of_decide_eq_true hpass)
  refine ⟨(entries.filter fun entry => decide (entry.level.value ≤ minLevel.value)).map LogEntry.message, ?_, ?_⟩
  · intro message hmessage
    obtain ⟨entry, hentry, rfl⟩ := List.mem_map.mp hmessage
    exact (hkept entry hentry).2
  · rw [shown, errorText, List.flatMap_map]
    refine List.flatMap_congr fun entry hentry => ?_
    rw [← (hkept entry hentry).1]

end Logger

end SecureMessaging
