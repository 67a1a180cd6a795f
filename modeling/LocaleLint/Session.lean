import LocaleLint.Interception

set_option autoImplicit false

namespace LocaleLint

inductive Action
  | ignore
  | error
  | always
  | default
  | module
  | once
deriving Repr, DecidableEq, Inhabited

/-- All that filters and registries see of a warning: where the code stands that gives it, and its
text. -/
structure Site where
  module : String
  line : Nat
  category : String
  text : String
deriving Repr, DecidableEq, Inhabited

structure Warning where
  diagnostic : Diagnostic
  module : String
  line : Nat
deriving Repr, DecidableEq, Inhabited

def Warning.site (w : Warning) : Site :=
  ⟨w.module, w.line, w.diagnostic.category, w.diagnostic.text⟩

abbrev Filters := Site → Action

inductive Shown
  | here (site : Site)
  | anywhere (module category text : String)
deriving Repr, DecidableEq, Inhabited

def Site.anywhere (site : Site) : Shown := .anywhere site.module site.category site.text

/-- What keeps a warning from being shown again. It is discarded whenever the filters change. -/
abbrev Registry := List Shown

inductive Emission
  | ignored
  | delivered (diagnostic : Diagnostic)
  | raised (rejection : Rejection)
  -- The filters make an error of the warning itself.
  | thrown (diagnostic : Diagnostic)
  -- More handlers would have to call each other than calls may be nested.
  | overflowed
deriving DecidableEq

def Handler.layers : Handler → Nat
  | .outer => 0
  | .escalating _ previous => previous.layers + 1

def Handler.deliverWithin (d : Diagnostic) (limit : Nat) (handler : Handler) : Emission :=
  match handler.deliver d with
  | .raised rejection => .raised rejection
  | .delivered d => if handler.layers ≤ limit then .delivered d else .overflowed

inductive Step
  | enter (filename : Option String)
  | leave (failing : Bool)
  | warn (w : Warning)
deriving DecidableEq

structure Session where
  channel : Channel
  registry : Registry
  emissions : List Emission

namespace Session

def start : Session := ⟨.outermost, [], []⟩

variable (filters : Filters) (limit : Nat)

def action (session : Session) (site : Site) : Action :=
  match session.channel.filter with
  | .everything => .always
  | .outer => filters site

-- Whether the filters let a warning through, and the registry behind it.
def sifted (session : Session) (site : Site) : Bool × Registry :=
  if .here site ∈ session.registry then (false, session.registry)
  else
    match session.action filters site with
    | .ignore => (false, session.registry)
    | .error | .always => (true, session.registry)
    | .default => (true, .here site :: session.registry)
    | .module | .once =>
        if site.anywhere ∈ session.registry then (false, .here site :: session.registry)
        else (true, .here site :: site.anywhere :: session.registry)

def emission (session : Session) (w : Warning) : Emission :=
  if (session.sifted filters w.site).1 then
    if session.action filters w.site = .error then .thrown w.diagnostic
    else session.channel.handler.deliverWithin w.diagnostic limit
  else .ignored

def step (session : Session) : Step → Session
  | .enter filename => { session with channel := session.channel.enter filename, registry := [] }
  | .leave _ => { session with channel := session.channel.leave, registry := [] }
  | .warn w =>
      { session with
        registry := (session.sifted filters w.site).2
        emissions := session.emissions ++ [session.emission filters limit w] }

def run (session : Session) (steps : List Step) : Session :=
  steps.foldl (step filters limit) session

def delivered (session : Session) : List Diagnostic :=
  session.emissions.filterMap fun
    | .delivered d => some d
    | _ => none

end Session

end LocaleLint
