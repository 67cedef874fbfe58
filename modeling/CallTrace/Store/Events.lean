import CallTrace.Store.Repository
import CallTrace.Text.Quoted
import CallTrace.TokenEvent

/-! # Applying landscape events

A new landscape needs nothing, a deleted one loses its traces, and a cloned one gets copies of
another's (`TokenEvent.apply`).  A failure is logged and returned. -/

namespace CallTrace.TokenEvent
variable {σ : Type} [Repository σ]

/-- How an event is shown in the log. -/
def shown : TokenEvent → String
  | created token => "Created \x7b token: " ++ Text.quoted token ++ " \x7d"
  | deleted token => "Deleted \x7b token: " ++ Text.quoted token ++ " \x7d"
  | cloned token clonedToken =>
      "Cloned \x7b token: " ++ Text.quoted token ++ ", cloned_token: " ++ Text.quoted clonedToken
        ++ " \x7d"

/-- What an event does to a repository. -/
def effect (e : TokenEvent) (s : σ) : StoreOutcome σ Unit :=
  match e with
  | created _ => { result := .ok (), store := s }
  | deleted token =>
    let (result, s) := Repository.deleteLandscape token s
    { result := result, store := s, log := [⟨.trace, "Deleting landscape for token " ++ token⟩] }
  | cloned token clonedToken =>
    let begun : LogLine := ⟨.trace, "Cloning landscape " ++ clonedToken ++ " into " ++ token⟩
    let o := Repository.cloneAll token clonedToken s
    match o.result with
    | .error fault => { result := .error fault, store := o.store, log := begun :: o.log }
    | .ok count =>
      { result := .ok ()
        store := o.store
        log := begun :: o.log
          ++ [⟨.trace, "Cloned " ++ toString count ++ " traces into " ++ token⟩] }

/-- The line that reports a failure; a crash leaves nobody to report it. -/
def failureLog (e : TokenEvent) : Except StoreFault Unit → List LogLine
  | .error (.refused error) =>
      [⟨.error, "Failed to apply token event " ++ e.shown ++ ": " ++ error.message⟩]
  | _ => []

/-- Applies an event and reports what it did. -/
def apply (e : TokenEvent) (s : σ) : StoreOutcome σ Unit :=
  let o := e.effect s
  { o with
    log := ⟨.trace, "Received token event " ++ e.shown⟩ :: o.log ++ e.failureLog o.result }

end CallTrace.TokenEvent
