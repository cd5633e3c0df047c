import Spitfire.Buffer.Links

/-! `EnableLogging` and the list of log sinks that it adds to. The sink is one static of the
function, and every call that names a directory installs it again. -/
namespace Spitfire.Rtc
open Buffer

inductive RtcLogVerbosity where
  | verbose | info | warning | error | none
  deriving DecidableEq, Repr

inductive LoggingSeverity where
  | verbose | info | warning | error | none
  deriving DecidableEq, Repr

def LoggingSeverity.toNat : LoggingSeverity → Nat
  | .verbose => 0
  | .info => 1
  | .warning => 2
  | .error => 3
  | .none => 4

/-- `static_cast`: both enumerations number their members from zero on. -/
def RtcLogVerbosity.toSeverity : RtcLogVerbosity → LoggingSeverity
  | .verbose => .verbose
  | .info => .info
  | .warning => .warning
  | .error => .error
  | .none => .none

/-- Spitfire's sink and the sinks of others. -/
inductive Sink (κ : Type) where
  | spitfire
  | other (k : κ)
  deriving DecidableEq, Repr

structure FileRotatingLogSink where
  directory : String
  name : String
  maxLogSize : UInt64
  numLogFiles : UInt16
  deriving DecidableEq, Repr

/-- The state of the logging of the process. `sink` is the static of `EnableLogging`, which
is constructed when control first reaches it. -/
structure Logging (κ : Type) where
  streams : Links (Sink κ)
  minSeverity : Sink κ → LoggingSeverity
  sink : Option FileRotatingLogSink := none
  timestamps : Bool := false
  threads : Bool := false

/-- The arguments of a call. The directory can be null. -/
structure LoggingCall where
  verbosity : RtcLogVerbosity
  logDirectory : Option String
  maxLogSize : UInt64
  maxNumberOfSplits : UInt16
  deriving DecidableEq, Repr

/-- The exception for a string that cannot be marshalled. -/
inductive LoggingException where
  | argumentNull
  deriving DecidableEq, Repr

namespace LoggingCall

/-- The call names a directory. -/
def installs (c : LoggingCall) : Bool := c.logDirectory.any fun directory => !directory.isEmpty

end LoggingCall

variable {κ : Type} [DecidableEq κ]

namespace Logging

/-- `LogMessage::AddLogToStream` -/
def addLogToStream (stream : Sink κ) (minSev : LoggingSeverity) (l : Logging κ) : Logging κ :=
  { l with
    minSeverity := Function.update l.minSeverity stream minSev
    streams := l.streams.push stream }

def enableLogging (c : LoggingCall) (l : Logging κ) : Except LoggingException (Logging κ) :=
  match c.logDirectory with
  | none => .error .argumentNull
  | some directory =>
    if directory.isEmpty then .ok l
    else
      let sink : FileRotatingLogSink := ⟨directory, "spitfire", c.maxLogSize, c.maxNumberOfSplits⟩
      let l := { l with sink := l.sink.or (some sink), timestamps := true, threads := true }
      .ok (l.addLogToStream .spitfire c.verbosity.toSeverity)

/-- One call after the other. A call that throws has changed nothing. -/
def enableAll (calls : List LoggingCall) (l : Logging κ) : Logging κ :=
  calls.foldl (fun l c => (l.enableLogging c).toOption.getD l) l

/-- The sinks that a message of this severity is written to, in order, if the list ends
after no more than `n` of them. -/
def receivers (l : Logging κ) (n : Nat) (severity : LoggingSeverity) : Option (List (Sink κ)) :=
  (l.streams.walk n).map (List.filter fun k => (l.minSeverity k).toNat ≤ severity.toNat)

/-- Every message is written, and to Spitfire's sink at most once. -/
def WritesOnce (l : Logging κ) : Prop :=
  ∀ severity, ∃ n ks, l.receivers n severity = some ks ∧ ks.count .spitfire ≤ 1

theorem streams_enableLogging (c : LoggingCall) (l : Logging κ) :
    ((l.enableLogging c).toOption.getD l).streams =
      if c.installs then l.streams.push .spitfire else l.streams := by
  unfold enableLogging LoggingCall.installs
  cases c.logDirectory with
  | none => rfl
  | some directory =>
    by_cases hempty : directory.isEmpty = true
    · simp [hempty, Except.toOption]
    · simp [hempty, Except.toOption, addLogToStream]

/-- The calls that name a directory push the sink, and the others do nothing. -/
theorem streams_enableAll (calls : List LoggingCall) (l : Logging κ) :
    (l.enableAll calls).streams =
      (Links.push .spitfire)^[calls.countP LoggingCall.installs] l.streams := by
  induction calls generalizing l with
  | nil => rfl
  | cons c calls ih =>
    change (((l.enableLogging c).toOption.getD l).enableAll calls).streams = _
    rw [ih, streams_enableLogging]
    by_cases hc : c.installs = true
    · rw [if_pos hc, List.countP_cons_of_pos hc, Function.iterate_succ_apply]
    · rw [if_neg hc, List.countP_cons_of_neg hc]

theorem writesOnce_of_endsWithin {l : Logging κ} (h : l.streams.EndsWithin .spitfire) :
    l.WritesOnce := by
  obtain ⟨n, ks, hwalk, hcount⟩ := h
  intro severity
  refine ⟨n, _, by rw [receivers, hwalk, Option.map_some], ?_⟩
  exact Nat.le_trans (List.filter_sublist.count_le _) hcount

end Logging

/-- From any list that ends and does not have Spitfire's sink in it, the walk over the sinks
ends and passes that sink at most once, and every message is written at most once, exactly
when no more than one of the calls named a directory. -/
theorem enableLogging_repeated_iff {l : Logging κ} {n : Nat} {ks : List (Sink κ)}
    (hwalk : l.streams.walk n = some ks) (hnew : .spitfire ∉ ks) (calls : List LoggingCall) :
    (l.enableAll calls).streams.EndsWithin .spitfire ∧ (l.enableAll calls).WritesOnce ↔
      calls.countP LoggingCall.installs ≤ 1 := by
  rw [and_iff_left_of_imp Logging.writesOnce_of_endsWithin, Logging.streams_enableAll]
  exact Links.endsWithin_iterate_push_iff hwalk hnew _

/-- The logging of a process that nobody has set up yet. -/
def Logging.initial : Logging Empty where
  streams := ⟨none, fun _ => none⟩
  minSeverity := fun _ => .none

def enableInLogs (verbosity : RtcLogVerbosity) : LoggingCall := ⟨verbosity, some "logs", 1048576, 5⟩

/-- The logging of a process that has a sink of its own. -/
def Logging.shared : Logging Unit where
  streams := ⟨some (.other ()), fun _ => none⟩
  minSeverity := fun _ => .warning

/-- Of three calls, one names no directory and one passes null. -/
def oneOfThree : List LoggingCall :=
  [⟨.verbose, some "", 1048576, 5⟩, enableInLogs .info, ⟨.error, none, 1048576, 5⟩]

theorem enableLogging_first_call :
    (Logging.shared.enableAll oneOfThree).streams.EndsWithin .spitfire ∧
      (Logging.shared.enableAll oneOfThree).WritesOnce :=
  (enableLogging_repeated_iff (show Logging.shared.streams.walk 1 = some [.other ()] from rfl)
    (by simp) oneOfThree).mpr (by decide)

/-- The second call, with another verbosity, makes the sink its own successor, and no
message is ever written. -/
theorem enableLogging_second_call_never_ends :
    ¬ (Logging.initial.enableAll [enableInLogs .info, enableInLogs .error]).streams.EndsWithin
      .spitfire ∧
    ∀ n severity, (Logging.initial.enableAll
      [enableInLogs .info, enableInLogs .error]).receivers n severity = none := by
  have hlooped : (Logging.initial.enableAll
      [enableInLogs .info, enableInLogs .error]).streams.Looped .spitfire := by
    rw [Logging.streams_enableAll]
    exact Links.looped_iterate_push Sink.spitfire _ 0
  refine ⟨hlooped.not_endsWithin, ?_⟩
  intro n severity
  rw [Logging.receivers, hlooped.walk_eq_none, Option.map_none]

end Spitfire.Rtc
