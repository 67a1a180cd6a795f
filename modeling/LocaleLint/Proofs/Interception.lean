import Mathlib.Data.List.Induction
import LocaleLint.Session
import LocaleLint.Proofs.Diagnostic

set_option autoImplicit false

namespace LocaleLint

theorem Handler.deliver_of_unmatched (d : Diagnostic)
    (unmatched : Diagnostic.duplicateIn? d.text = none) (handler : Handler) :
    handler.deliver d = .delivered d := by
  induction handler with
  | outer => rfl
  | escalating filename previous ih =>
    rw [Handler.deliver, Diagnostic.escalated?_eq_none d filename unmatched]
    exact ih

namespace Channel

theorem deliver_of_unmatched (channel : Channel) (filename : Option String) (d : Diagnostic)
    (unmatched : Diagnostic.duplicateIn? d.text = none) :
    (channel.enter filename).deliver d = .delivered d :=
  Handler.deliver_of_unmatched d unmatched _

theorem deliver_of_matched (channel : Channel) (filename : Option String) (d : Diagnostic)
    (found : String) (matched : Diagnostic.duplicateIn? d.text = some found) :
    ∃ r, (channel.enter filename).deliver d = .raised r ∧ r.category = .duplicateKey ∧
      r.message = found ∧ r.line = d.line ∧ r.column = d.column ∧ r.filename = filename ∧
        r.snippet = none := by
  obtain ⟨r, escalated, rest⟩ := Diagnostic.escalated?_eq_some d filename found matched
  refine ⟨r, ?_, rest⟩
  rw [deliver_enter, escalated]

def within (outer : Channel) (opened : List (Option String)) : Channel :=
  opened.foldr (fun filename channel => channel.enter filename) outer

theorem within_cons (outer : Channel) (filename : Option String) (opened : List (Option String)) :
    outer.within (filename :: opened) = (outer.within opened).enter filename := rfl

theorem depth_enter (channel : Channel) (filename : Option String) :
    (channel.enter filename).depth = channel.depth + 1 := rfl

theorem depth_within (outer : Channel) (opened : List (Option String)) :
    (outer.within opened).depth = outer.depth + opened.length := by
  induction opened with
  | nil => rfl
  | cons filename opened ih =>
    rw [within_cons, depth_enter, ih, List.length_cons]
    omega

theorem layers_within (outer : Channel) (opened : List (Option String)) :
    (outer.within opened).handler.layers = outer.handler.layers + opened.length := by
  induction opened with
  | nil => rfl
  | cons filename opened ih =>
    rw [within_cons, enter, Handler.layers, ih, List.length_cons]
    omega

theorem leave_within (outer : Channel) (bottom : outer.leave = outer)
    (opened : List (Option String)) :
    (outer.within opened).leave = outer.within opened.tail := by
  cases opened with
  | nil => exact bottom
  | cons filename opened => exact leave_enter (outer.within opened) filename

end Channel

namespace Step

def opened (scopes : List (Option String)) : Step → List (Option String)
  | .enter filename => filename :: scopes
  | .leave _ => scopes.tail
  | .warn _ => scopes

def openScopes (steps : List Step) : List (Option String) := steps.foldl opened []

theorem openScopes_concat (steps : List Step) (last : Step) :
    openScopes (steps ++ [last]) = opened (openScopes steps) last :=
  List.foldl_append

def recent (warnings : List Warning) : Step → List Warning
  | .enter _ | .leave _ => []
  | .warn w => warnings ++ [w]

def recentWarnings (steps : List Step) : List Warning := steps.foldl recent []

theorem recentWarnings_concat (steps : List Step) (last : Step) :
    recentWarnings (steps ++ [last]) = recent (recentWarnings steps) last :=
  List.foldl_append

def outside (scopes : List (Option String)) (warnings : List Warning) : Step → List Warning
  | .enter _ | .leave _ => warnings
  | .warn w => if scopes = [] then warnings ++ [w] else warnings

def outsideFrom (scopes : List (Option String)) (warnings : List Warning) : List Step → List Warning
  | [] => warnings
  | step :: rest => outsideFrom (opened scopes step) (outside scopes warnings step) rest

def outsideWarnings (steps : List Step) : List Warning := outsideFrom [] [] steps

theorem outsideFrom_concat (scopes : List (Option String)) (warnings : List Warning)
    (steps : List Step) (last : Step) :
    outsideFrom scopes warnings (steps ++ [last]) =
      outside (steps.foldl opened scopes) (outsideFrom scopes warnings steps) last := by
  induction steps generalizing scopes warnings with
  | nil => rfl
  | cons step rest ih => exact ih _ _

theorem mem_outside_of_recent (steps : List Step) (closed : openScopes steps = []) (w : Warning)
    (among : w ∈ recentWarnings steps) : w ∈ outsideWarnings steps := by
  induction steps using List.reverseRecOn with
  | nil => cases among
  | append_singleton steps last ih =>
    rw [recentWarnings_concat] at among
    rw [openScopes_concat] at closed
    rw [outsideWarnings, outsideFrom_concat]
    cases last with
    | enter filename => cases among
    | leave failing => cases among
    | warn other =>
      have outermost : steps.foldl opened [] = [] := closed
      rw [outside, if_pos outermost]
      rcases List.mem_append.mp among with early | here
      · exact List.mem_append_left _ (ih closed early)
      · exact List.mem_append_right _ here

theorem openScopes_warnings (warnings : List Warning) : openScopes (warnings.map .warn) = [] := by
  induction warnings with
  | nil => rfl
  | cons w rest ih => exact ih

/-- Each scope that these steps enter they leave, and no other. -/
inductive Balanced : List Step → Prop
  | nil : Balanced []
  | warn (w : Warning) (rest : List Step) : Balanced rest → Balanced (.warn w :: rest)
  | scope (filename : Option String) (inner : List Step) (failing : Bool) (rest : List Step) :
      Balanced inner → Balanced rest →
        Balanced (.enter filename :: (inner ++ .leave failing :: rest))

theorem Balanced.append (early late : List Step) (first : Balanced early) (second : Balanced late) :
    Balanced (early ++ late) := by
  induction first with
  | nil => exact second
  | warn w rest _ ih => exact .warn w _ ih
  | scope filename inner failing rest inside _ _ ih =>
    rw [List.cons_append, List.append_assoc, List.cons_append]
    exact .scope filename inner failing _ inside ih

/-- An open scope has its entry, and nothing entered since is open. -/
theorem exists_entry (steps : List Step) (filename : Option String) (scopes : List (Option String))
    (isOpen : openScopes steps = filename :: scopes) :
    ∃ before inner, steps = before ++ .enter filename :: inner ∧ openScopes before = scopes ∧
      Balanced inner := by
  -- A step that leaves a scope sends the search past the entry of that one, hence the length.
  induction length : steps.length using Nat.strongRecOn generalizing steps filename scopes with
  | ind size ih =>
    cases steps using List.reverseRecOn with
    | nil => cases isOpen
    | append_singleton steps last _ =>
      have shorter : steps.length < size := by
        rw [← length, List.length_append]
        exact Nat.lt_succ_self _
      rw [openScopes_concat] at isOpen
      cases last with
      | enter entered =>
        cases isOpen
        exact ⟨steps, [], rfl, rfl, .nil⟩
      | warn w =>
        obtain ⟨before, inner, whole, outer, balanced⟩ :=
          ih _ shorter steps filename scopes isOpen rfl
        refine ⟨before, inner ++ [.warn w], ?_, outer, balanced.append _ _ (.warn w _ .nil)⟩
        rw [whole, List.append_assoc, List.cons_append]
      | leave failing =>
        cases stacked : openScopes steps with
        | nil =>
          rw [stacked] at isOpen
          cases isOpen
        | cons left others =>
          rw [stacked] at isOpen
          obtain ⟨entry, inside, whole, below, closed⟩ := ih _ shorter steps left others stacked rfl
          have earlier : entry.length < size := by
            rw [whole, List.length_append] at shorter
            omega
          obtain ⟨before, inner, first, outer, balanced⟩ :=
            ih _ earlier entry filename scopes (below.trans isOpen) rfl
          refine ⟨before, inner ++ (.enter left :: (inside ++ .leave failing :: [])), ?_, outer,
            balanced.append _ _ (.scope left inside failing [] closed .nil)⟩
          rw [whole, first]
          simp only [List.append_assoc, List.cons_append]

end Step

namespace Session

open Step (openScopes recentWarnings outsideWarnings Balanced)

variable (filters : Filters) (limit : Nat)

theorem run_append (session : Session) (early late : List Step) :
    session.run filters limit (early ++ late) =
      (session.run filters limit early).run filters limit late :=
  List.foldl_append

theorem step_channel (outer : Channel) (bottom : outer.leave = outer) (session : Session)
    (scopes : List (Option String)) (inside : session.channel = outer.within scopes)
    (next : Step) :
    (session.step filters limit next).channel = outer.within (Step.opened scopes next) := by
  cases next with
  | enter filename =>
    rw [step, inside]
    rfl
  | leave failing =>
    rw [step, inside]
    exact Channel.leave_within outer bottom scopes
  | warn w => exact inside

theorem run_channel (steps : List Step) :
    (start.run filters limit steps).channel = Channel.outermost.within (openScopes steps) := by
  induction steps using List.reverseRecOn with
  | nil => rfl
  | append_singleton steps last ih =>
    rw [run_append, Step.openScopes_concat]
    exact step_channel filters limit _ rfl _ _ ih last

theorem sifted_congr (session other : Session) (filter : session.channel = other.channel)
    (registry : session.registry = other.registry) (site : Site) :
    session.sifted filters site = other.sifted filters site := by
  simp only [sifted, action, filter, registry]

theorem emission_congr (session other : Session) (channel : session.channel = other.channel)
    (registry : session.registry = other.registry) (w : Warning) :
    session.emission filters limit w = other.emission filters limit w := by
  have action : session.action filters w.site = other.action filters w.site := by
    simp only [action, channel]
  rw [emission, emission, sifted_congr filters session other channel registry, action, channel]

theorem sifted_within (session : Session) (filename : Option String) (scopes : List (Option String))
    (inside : session.channel = Channel.outermost.within (filename :: scopes))
    (forgot : session.registry = []) (site : Site) : session.sifted filters site = (true, []) := by
  have always : session.action filters site = .always := by
    rw [action, inside]
    rfl
  simp [sifted, forgot, always]

theorem run_registry (steps : List Step) :
    (start.run filters limit steps).registry =
      if openScopes steps = [] then
        (start.run filters limit ((recentWarnings steps).map .warn)).registry
      else [] := by
  induction steps using List.reverseRecOn with
  | nil => rfl
  | append_singleton steps last ih =>
    rw [run_append, Step.openScopes_concat, Step.recentWarnings_concat]
    cases last with
    | enter filename => rfl
    | leave failing =>
      split
      next => rfl
      next => rfl
    | warn w =>
      have channel := run_channel filters limit steps
      cases scopes : openScopes steps with
      | nil =>
        rw [if_pos scopes] at ih
        rw [scopes] at channel
        have fresh := run_channel filters limit ((recentWarnings steps).map .warn)
        rw [Step.openScopes_warnings] at fresh
        rw [Step.opened, if_pos rfl, Step.recent, List.map_append, run_append]
        exact congrArg Prod.snd
          (sifted_congr filters _ _ (channel.trans fresh.symm) ih w.site)
      | cons filename others =>
        rw [if_neg (by simp [scopes])] at ih
        rw [scopes] at channel
        rw [Step.opened, if_neg (by simp)]
        exact congrArg Prod.snd (sifted_within filters _ filename others channel ih w.site)

def Remembers : Action → Prop
  | .ignore | .error | .always => False
  | .default | .module | .once => True

theorem mem_sifted (session : Session) (site : Site) (shown : Shown)
    (known : shown ∈ (session.sifted filters site).2) :
    shown ∈ session.registry ∨ Remembers (session.action filters site) ∧
      (shown = .here site ∨ shown = site.anywhere) := by
  unfold sifted at known
  split at known
  next => exact .inl known
  next =>
    split at known
    next => exact .inl known
    next => exact .inl known
    next => exact .inl known
    next remembers =>
      rcases List.mem_cons.mp known with here | before
      · exact .inr ⟨by rw [remembers]; trivial, .inl here⟩
      · exact .inl before
    all_goals
      next remembers =>
        have remember : Remembers (session.action filters site) := by rw [remembers]; trivial
        split at known
        · rcases List.mem_cons.mp known with here | before
          · exact .inr ⟨remember, .inl here⟩
          · exact .inl before
        · rcases List.mem_cons.mp known with here | known
          · exact .inr ⟨remember, .inl here⟩
          · rcases List.mem_cons.mp known with anywhere | before
            · exact .inr ⟨remember, .inr anywhere⟩
            · exact .inl before

theorem exists_of_mem_registry (warnings : List Warning) (shown : Shown)
    (known : shown ∈ (start.run filters limit (warnings.map .warn)).registry) :
    ∃ earlier ∈ warnings, Remembers (filters earlier.site) ∧
      (shown = .here earlier.site ∨ shown = earlier.site.anywhere) := by
  induction warnings using List.reverseRecOn with
  | nil => cases known
  | append_singleton warnings last ih =>
    have channel := run_channel filters limit (warnings.map .warn)
    rw [Step.openScopes_warnings] at channel
    rw [List.map_append, run_append] at known
    rcases mem_sifted filters _ last.site shown known with early | ⟨remembers, which⟩
    · obtain ⟨earlier, among, rest⟩ := ih early
      exact ⟨earlier, List.mem_append_left _ among, rest⟩
    · rw [action, channel] at remembers
      exact ⟨last, List.mem_append_right _ (List.mem_singleton_self last), remembers, which⟩

theorem fst_sifted (session : Session) (site : Site) (here : .here site ∉ session.registry)
    (anywhere : Remembers (session.action filters site) → site.anywhere ∉ session.registry) :
    (session.sifted filters site).1 = decide (session.action filters site ≠ .ignore) := by
  unfold sifted
  rw [if_neg here]
  split
  next ignores => simp [ignores]
  next throws => simp [throws]
  next shows => simp [shows]
  next shows => simp [shows]
  all_goals
    next remembers =>
      have fresh := anywhere (by rw [remembers]; trivial)
      simp [remembers, fresh]

theorem emission_unheld (warnings : List Warning) (w : Warning)
    (unheld : ¬ Remembers (filters w.site) ∨
      ∀ earlier ∈ warnings, earlier.site.anywhere ≠ w.site.anywhere) :
    (start.run filters limit (warnings.map .warn)).emission filters limit w =
      start.emission filters limit w := by
  have channel := run_channel filters limit (warnings.map .warn)
  rw [Step.openScopes_warnings] at channel
  have same : (start.run filters limit (warnings.map .warn)).action filters w.site =
      start.action filters w.site := by
    rw [action, action, channel]
    rfl
  have here : .here w.site ∉ (start.run filters limit (warnings.map .warn)).registry := by
    intro known
    obtain ⟨earlier, among, remembers, which⟩ :=
      exists_of_mem_registry filters limit warnings _ known
    rcases which with again | anywhere
    · rw [← Shown.here.inj again] at remembers
      rcases unheld with forgets | other
      · exact forgets remembers
      · exact other earlier among (congrArg Site.anywhere (Shown.here.inj again).symm)
    · cases anywhere
  have anywhere (remembering : Remembers (filters w.site)) :
      w.site.anywhere ∉ (start.run filters limit (warnings.map .warn)).registry := by
    intro known
    obtain ⟨earlier, among, -, which⟩ := exists_of_mem_registry filters limit warnings _ known
    rcases which with here | again
    · cases here
    · rcases unheld with forgets | other
      · exact forgets remembering
      · exact other earlier among again.symm
  have passes : ((start.run filters limit (warnings.map .warn)).sifted filters w.site).1 =
      (start.sifted filters w.site).1 := by
    rw [fst_sifted filters _ _ here fun remembering =>
      anywhere (by rw [same] at remembering; exact remembering),
      fst_sifted filters start w.site nofun fun _ => nofun, same]
  rw [emission, emission, passes, same, channel]
  rfl

theorem step_warn_within (steps : List Step) (filename : Option String)
    (scopes : List (Option String)) (innermost : openScopes steps = filename :: scopes)
    (w : Warning) :
    let session := start.run filters limit steps
    session.step filters limit (.warn w) =
      { session with
        emissions := session.emissions ++
          [session.channel.handler.deliverWithin w.diagnostic limit] } := by
  have inside := run_channel filters limit steps
  have registry := run_registry filters limit steps
  rw [innermost] at inside
  rw [if_neg (by simp [innermost])] at registry
  have passes := sifted_within filters _ filename scopes inside registry w.site
  have always : (start.run filters limit steps).action filters w.site = .always := by
    rw [action, inside]
    rfl
  simp [step, emission, passes, always, registry]

/-- What the next warning and the next exit do after these steps. -/
structure IsScoped (steps : List Step) : Prop where
  depth : (start.run filters limit steps).channel.depth = (openScopes steps).length
  raises : ∀ filename scopes w found, openScopes steps = filename :: scopes →
    Diagnostic.duplicateIn? w.diagnostic.text = some found →
      ∃ r, r.category = .duplicateKey ∧ r.message = found ∧ r.filename = filename ∧
        let session := start.run filters limit steps
        session.step filters limit (.warn w) =
          { session with emissions := session.emissions ++ [.raised r] }
  forwards : ∀ w, openScopes steps ≠ [] → Diagnostic.duplicateIn? w.diagnostic.text = none →
    let session := start.run filters limit steps
    session.step filters limit (.warn w) =
      { session with
        emissions := session.emissions ++
          [if (openScopes steps).length ≤ limit then .delivered w.diagnostic else .overflowed] }
  reinstates : ∀ failing, openScopes steps ≠ [] → ∃ before filename inner,
    steps = before ++ .enter filename :: inner ∧ Balanced inner ∧
      ((start.run filters limit steps).step filters limit (.leave failing)).channel =
        (start.run filters limit before).channel
  original : openScopes steps = [] →
    (start.run filters limit steps).channel = start.channel ∧
      ∀ w, (start.run filters limit steps).emission filters limit w =
        (start.run filters limit ((recentWarnings steps).map .warn)).emission filters limit w
  unaffected : openScopes steps = [] → ∀ w,
    (¬ Remembers (filters w.site) ∨
      ∀ earlier ∈ outsideWarnings steps, earlier.site.anywhere ≠ w.site.anywhere) →
      (start.run filters limit steps).emission filters limit w =
        (start.run filters limit ((outsideWarnings steps).map .warn)).emission filters limit w

theorem isScoped (steps : List Step) : IsScoped filters limit steps := by
  have inside := run_channel filters limit steps
  have registry := run_registry filters limit steps
  constructor
  case depth =>
    rw [inside, Channel.depth_within]
    exact Nat.zero_add _
  case raises =>
    intro filename scopes w found innermost matched
    have stepped := step_warn_within filters limit steps filename scopes innermost w
    rw [innermost, Channel.within_cons] at inside
    obtain ⟨r, raised, category, message, -, -, filed, -⟩ := Channel.deliver_of_matched
      (Channel.outermost.within scopes) filename w.diagnostic found matched
    refine ⟨r, category, message, filed, ?_⟩
    rw [← inside, Channel.deliver] at raised
    simpa [Handler.deliverWithin, raised] using stepped
  case forwards =>
    intro w opened unmatched
    obtain ⟨filename, scopes, innermost⟩ := List.exists_cons_of_ne_nil opened
    have stepped := step_warn_within filters limit steps filename scopes innermost w
    have layers : (start.run filters limit steps).channel.handler.layers =
        (openScopes steps).length := by
      rw [inside, Channel.layers_within]
      exact Nat.zero_add _
    have delivered := Handler.deliver_of_unmatched w.diagnostic unmatched
      (start.run filters limit steps).channel.handler
    simpa [Handler.deliverWithin, delivered, layers] using stepped
  case reinstates =>
    intro failing opened
    obtain ⟨filename, scopes, innermost⟩ := List.exists_cons_of_ne_nil opened
    obtain ⟨before, inner, whole, outer, balanced⟩ :=
      Step.exists_entry steps filename scopes innermost
    refine ⟨before, filename, inner, whole, balanced, ?_⟩
    rw [run_channel filters limit before, outer]
    simp only [step, inside, innermost]
    exact Channel.leave_enter _ filename
  case original =>
    intro closed
    have fresh := run_channel filters limit ((recentWarnings steps).map .warn)
    rw [Step.openScopes_warnings] at fresh
    rw [closed] at inside
    rw [if_pos closed] at registry
    exact ⟨inside, emission_congr filters limit _ _ (inside.trans fresh.symm) registry⟩
  case unaffected =>
    intro closed w unheld
    have fresh := run_channel filters limit ((recentWarnings steps).map .warn)
    rw [Step.openScopes_warnings] at fresh
    rw [closed] at inside
    rw [if_pos closed] at registry
    rw [emission_congr filters limit _ _ (inside.trans fresh.symm) registry,
      emission_unheld filters limit _ w unheld, emission_unheld filters limit _ w]
    exact unheld.imp_right fun other earlier among =>
      other earlier (Step.mem_outside_of_recent steps closed earlier among)

/-- The scope between them lets a warning be shown twice, and a thousand scopes let none through. -/
theorem scope_forgets :
    let filters : Filters := fun _ => .default
    let w : Warning := ⟨.other ⟨"UserWarning", "seen", none, none⟩, "app", 1⟩
    let delivered (steps : List Step) := (start.run filters 999 steps).delivered
    delivered [.warn w, .warn w] = [w.diagnostic] ∧
      delivered [.warn w, .enter none, .leave false, .warn w] = [w.diagnostic, w.diagnostic] ∧
        delivered (List.replicate 1000 (.enter none) ++ [.warn w]) = [] := by
  decide +kernel

end Session

end LocaleLint
