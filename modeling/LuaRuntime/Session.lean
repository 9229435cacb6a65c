import LuaRuntime.Machine

/-!
# Sessions

A session is a script with the settings of the runtime that runs it.  The runtime is new,
opens the libraries it is asked for, and then evaluates the steps of the script one after
the other.  An error ends its step but not the session, and a panic ends both.
-/

namespace LuaRuntime

/-- A script and the settings of its runtime. -/
structure Session where
  /-- The limits of the runtime. -/
  limits : Limits := {}
  /-- Where the output goes. -/
  sink : Sink := .keep
  /-- What is opened at the start, in order: a library, or all of them. -/
  libraries : List (Option LibraryName) := [none]
  /-- The time at which it takes place, in seconds since the start of 1970. -/
  now : Int := 0
  /-- The steps. -/
  steps : List Expr

/-- The state in which a session starts its first step. -/
def Session.start (session : Session) : State :=
  let blank := State.initial session.limits session.sink session.now
  ((session.libraries.forM openChosen).run blank).2

/-- Whether a step ended in a panic. -/
def endedInPanic : Except Error (List Value) → Bool
  | .ok _ => false
  | .error e => e.isPanic

/-- Evaluates steps one after the other, each in the state that the one before left.  After a panic
no step follows. -/
def runSteps : List Expr → StateM State (List (Except Error (List Value)))
  | [] => return []
  | e :: rest => do
      let result ← (run e).run
      if endedInPanic result then return [result] else return result :: (← runSteps rest)

/-- The results of the steps of a session, and the state at its end. -/
def Session.run (session : Session) : List (Except Error (List Value)) × State :=
  (runSteps session.steps).run session.start

end LuaRuntime
