import LocaleLint.Diagnostic

set_option autoImplicit false

namespace LocaleLint

/-- A layer raises diagnostics of duplicate keys for its file and hands on the others. -/
inductive Handler
  | outer
  | escalating (filename : Option String) (previous : Handler)
deriving Repr, DecidableEq, Inhabited

inductive Filter
  | outer
  | everything
deriving Repr, DecidableEq, Inhabited

/-- What handlers make of a diagnostic that the filters let through. -/
inductive Delivery
  | delivered (diagnostic : Diagnostic)
  | raised (rejection : Rejection)
deriving DecidableEq

def Handler.deliver (d : Diagnostic) : Handler → Delivery
  | .outer => .delivered d
  | .escalating filename previous =>
      match d.escalated? filename with
      | some rejection => .raised rejection
      | none => previous.deliver d

structure Channel where
  filter : Filter
  handler : Handler
  -- Filter and handler before each open scope, the innermost first.
  saved : List (Filter × Handler)
deriving Repr, DecidableEq, Inhabited

namespace Channel

def outermost : Channel := ⟨.outer, .outer, []⟩

def depth (channel : Channel) : Nat := channel.saved.length

def enter (channel : Channel) (filename : Option String) : Channel :=
  ⟨.everything, .escalating filename channel.handler,
    (channel.filter, channel.handler) :: channel.saved⟩

def leave (channel : Channel) : Channel :=
  match channel.saved with
  | [] => channel
  | (filter, handler) :: saved => ⟨filter, handler, saved⟩

theorem leave_enter (channel : Channel) (filename : Option String) :
    (channel.enter filename).leave = channel := rfl

def deliver (channel : Channel) (d : Diagnostic) : Delivery := channel.handler.deliver d

theorem deliver_enter (channel : Channel) (filename : Option String) (d : Diagnostic) :
    (channel.enter filename).deliver d =
      match d.escalated? filename with
      | some rejection => .raised rejection
      | none => channel.deliver d := rfl

-- The diagnostics of one run: those delivered, in order, up to the first one raised.
def deliverAll (channel : Channel) : List Diagnostic → List Diagnostic × Option Rejection
  | [] => ([], none)
  | d :: rest =>
      match channel.deliver d with
      | .raised rejection => ([], some rejection)
      | .delivered d =>
          let (delivered, raised) := channel.deliverAll rest
          (d :: delivered, raised)

end Channel

end LocaleLint
