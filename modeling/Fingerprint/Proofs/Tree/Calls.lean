import Fingerprint.Proofs.Tree.Offers
import Fingerprint.Proofs.Tree.Traversal
/-!
# The calls of a walk

A visitor may keep a state of its own and may fail, so what it answers for a site depends on the
calls before.  A walk is therefore run with its calls recorded.  Once they are known, the answers
can be looked up, and the walk is one with a visitor that has no state and is asked in any order.
-/

namespace Fingerprint

structure Call (ε α : Type) where
  site : Site
  answer : Except ε (Signal α)

variable {σ ε α β γ : Type}

/-- The visitor, with its calls so far kept beside its state. -/
def recorded (visit : String → Site → ExceptT ε (StateM σ) (Signal α)) (path : String)
    (s : Site) : ExceptT ε (StateM (σ × List (Call ε α))) (Signal α) :=
  fun (state, calls) =>
    let (answer, state) := visit path s state
    (answer, state, calls ++ [⟨s, answer⟩])

theorem bind_apply_ok {x : ExceptT ε (StateM σ) β} {f : β → ExceptT ε (StateM σ) γ} {s s' : σ}
    {b : β} (h : x s = (.ok b, s')) : (x >>= f) s = f b s' := by
  simp only [bind, ExceptT.bind, ExceptT.mk, StateT.bind, h, ExceptT.bindCont]

theorem bind_apply_error {x : ExceptT ε (StateM σ) β} {f : β → ExceptT ε (StateM σ) γ} {s s' : σ}
    {e : ε} (h : x s = (.error e, s')) : (x >>= f) s = (.error e, s') := by
  simp only [bind, ExceptT.bind, ExceptT.mk, StateT.bind, h, ExceptT.bindCont]
  rfl

/-- How a computation ends that makes the calls: with the fault of the last one, or else without any
fault among them. -/
def Ended (calls : List (Call ε α)) : Except ε β → Prop
  | .ok _ => ∀ c ∈ calls, ∃ signal, c.answer = .ok signal
  | .error e => ∃ done last, calls = done ++ [last] ∧ last.answer = .error e ∧
      ∀ c ∈ done, ∃ signal, c.answer = .ok signal

theorem Ended.append {calls calls' : List (Call ε α)} {b : β} {result : Except ε γ}
    (h : Ended calls (.ok b : Except ε β)) (h' : Ended calls' result) :
    Ended (calls ++ calls') result := by
  cases result with
  | ok c => exact List.forall_mem_append.2 ⟨h, h'⟩
  | error e =>
    obtain ⟨done, last, rfl, hlast, hdone⟩ := h'
    exact ⟨calls ++ done, last, (List.append_assoc ..).symm, hlast,
      List.forall_mem_append.2 ⟨h, hdone⟩⟩

/-- A computation that calls a visitor, seen three ways: `full` records the calls, `run` does not,
and `replay` looks the answers up.  From `state` on it makes `calls`, all for some of `sites`, and
comes to `result`.  The calls are for the `offers`, up to where it fails. -/
structure Traces (full : ExceptT ε (StateM (σ × List (Call ε α))) β)
    (run : ExceptT ε (StateM σ) β) (replay : (Site → Except ε (Signal α)) → Except ε β)
    (offers : (Site → Except ε (Signal α)) → List Site) (sites : List Site)
    (state : σ) (calls : List (Call ε α)) (result : Except ε β) (state' : σ) : Prop where
  run_eq : run state = (result, state')
  full_eq : ∀ earlier, full (state, earlier) = (result, state', earlier ++ calls)
  sublist : (calls.map Call.site).Sublist sites
  ended : Ended calls result
  replay_eq : ∀ answer : Site → Except ε (Signal α), (∀ c ∈ calls, answer c.site = c.answer) →
    replay answer = result
  offers_eq : ∀ answer : Site → Except ε (Signal α), (∀ c ∈ calls, answer c.site = c.answer) →
    ∃ left, offers answer = calls.map Call.site ++ left ∧ ∀ b, result = .ok b → left = []

def Traceable (full : ExceptT ε (StateM (σ × List (Call ε α))) β)
    (run : ExceptT ε (StateM σ) β) (replay : (Site → Except ε (Signal α)) → Except ε β)
    (offers : (Site → Except ε (Signal α)) → List Site) (sites : List Site) : Prop :=
  ∀ state, ∃ calls result state', Traces full run replay offers sites state calls result state'

theorem traceable_pure (b : β) (sites : List Site) :
    Traceable (σ := σ) (ε := ε) (α := α) (pure b) (pure b) (fun _ => pure b) (fun _ => [])
      sites := by
  intro state
  refine ⟨[], .ok b, state, ?_⟩
  constructor
  case run_eq => rfl
  case full_eq => exact fun earlier => by rw [List.append_nil]; rfl
  case sublist => exact List.nil_sublist _
  case ended => exact List.forall_mem_nil _
  case replay_eq => exact fun _ _ => rfl
  case offers_eq => exact fun _ _ => ⟨[], rfl, fun _ _ => rfl⟩

theorem traceable_visit (visit : String → Site → ExceptT ε (StateM σ) (Signal α))
    (path : String) (s : Site) :
    Traceable (recorded visit path s) (visit path s) (fun answer => answer s) (fun _ => [s])
      [s] := by
  intro state
  refine ⟨[⟨s, (visit path s state).1⟩], (visit path s state).1, (visit path s state).2, ?_⟩
  constructor
  case run_eq => rfl
  case full_eq => exact fun earlier => rfl
  case sublist => exact List.Sublist.refl _
  case ended =>
    cases h : (visit path s state).1 with
    | ok signal => simp [Ended]
    | error e => exact ⟨[], _, rfl, rfl, List.forall_mem_nil _⟩
  case replay_eq => exact fun answer h => h _ (List.mem_singleton_self _)
  case offers_eq => exact fun _ _ => ⟨[], rfl, fun _ _ => rfl⟩

section

variable {full : ExceptT ε (StateM (σ × List (Call ε α))) β} {run : ExceptT ε (StateM σ) β}
  {replay : (Site → Except ε (Signal α)) → Except ε β}
  {offers offers' : (Site → Except ε (Signal α)) → List Site} {sites sites' : List Site}
  {full' : β → ExceptT ε (StateM (σ × List (Call ε α))) γ} {run' : β → ExceptT ε (StateM σ) γ}
  {replay' : (Site → Except ε (Signal α)) → β → Except ε γ}
  {later : β → (Site → Except ε (Signal α)) → List Site}

theorem Traces.bind_error {state middle : σ} {calls : List (Call ε α)} {e : ε}
    (h : Traces full run replay offers sites state calls (.error e) middle)
    (hfirst : ∀ answer, offers answer <+: offers' answer) :
    Traces (full >>= full') (run >>= run') (fun answer => replay answer >>= replay' answer)
      offers' (sites ++ sites') state calls (.error e) middle := by
  constructor
  case run_eq => exact bind_apply_error h.run_eq
  case full_eq => exact fun earlier => bind_apply_error (h.full_eq earlier)
  case sublist => exact h.sublist.trans (List.sublist_append_left ..)
  case ended => exact h.ended
  case replay_eq =>
    intro answer hanswer
    rw [h.replay_eq answer hanswer]
    rfl
  case offers_eq =>
    intro answer hanswer
    obtain ⟨left, hleft, -⟩ := h.offers_eq answer hanswer
    obtain ⟨more, hmore⟩ := hfirst answer
    exact ⟨left ++ more, by rw [← hmore, hleft, List.append_assoc], fun b hb => nomatch hb⟩

theorem Traces.bind_ok {state middle state' : σ} {calls calls' : List (Call ε α)} {b : β}
    {result : Except ε γ}
    (h : Traces full run replay offers sites state calls (.ok b) middle)
    (h' : Traces (full' b) (run' b) (fun answer => replay' answer b) (later b) sites' middle
      calls' result state')
    (hboth : ∀ answer, replay answer = .ok b → offers' answer = offers answer ++ later b answer) :
    Traces (full >>= full') (run >>= run') (fun answer => replay answer >>= replay' answer)
      offers' (sites ++ sites') state (calls ++ calls') result state' := by
  have hsplit : ∀ {answer : Site → Except ε (Signal α)},
      (∀ c ∈ calls ++ calls', answer c.site = c.answer) →
        (∀ c ∈ calls, answer c.site = c.answer) ∧ ∀ c ∈ calls', answer c.site = c.answer :=
    List.forall_mem_append.1
  constructor
  case run_eq => rw [bind_apply_ok h.run_eq, h'.run_eq]
  case full_eq =>
    intro earlier
    rw [bind_apply_ok (h.full_eq earlier), h'.full_eq, List.append_assoc]
  case sublist =>
    rw [List.map_append]
    exact h.sublist.append h'.sublist
  case ended => exact h.ended.append h'.ended
  case replay_eq =>
    intro answer hanswer
    rw [h.replay_eq answer (hsplit hanswer).1]
    exact h'.replay_eq answer (hsplit hanswer).2
  case offers_eq =>
    intro answer hanswer
    obtain ⟨left, hleft, hnone⟩ := h.offers_eq answer (hsplit hanswer).1
    obtain ⟨left', hleft', hnone'⟩ := h'.offers_eq answer (hsplit hanswer).2
    refine ⟨left', ?_, hnone'⟩
    rw [hboth answer (h.replay_eq answer (hsplit hanswer).1), hleft, hnone b rfl,
      List.append_nil, hleft', List.map_append, List.append_assoc]

theorem Traceable.bind (h : Traceable full run replay offers sites)
    (h' : ∀ b, Traceable (full' b) (run' b) (fun answer => replay' answer b) (later b) sites')
    (hfirst : ∀ answer, offers answer <+: offers' answer)
    (hboth : ∀ answer b, replay answer = .ok b →
      offers' answer = offers answer ++ later b answer) :
    Traceable (full >>= full') (run >>= run')
      (fun answer => replay answer >>= replay' answer) offers' (sites ++ sites') := by
  intro state
  obtain ⟨calls, result, middle, hcalls⟩ := h state
  cases result with
  | error e => exact ⟨calls, .error e, middle, hcalls.bind_error hfirst⟩
  | ok b =>
    obtain ⟨calls', result, state', hcalls'⟩ := h' b middle
    exact ⟨calls ++ calls', result, state', hcalls.bind_ok hcalls' fun answer => hboth answer b⟩

theorem Traceable.map (h : Traceable full run replay offers sites) (f : β → γ) :
    Traceable (full >>= fun b => pure (f b)) (run >>= fun b => pure (f b))
      (fun answer => replay answer >>= fun b => pure (f b)) offers sites := by
  have hbind := h.bind (fun b => traceable_pure (f b) []) (fun answer => List.prefix_rfl)
    (fun answer b _ => (List.append_nil _).symm)
  rwa [List.append_nil] at hbind

theorem Traceable.mono (h : Traceable full run replay offers sites)
    (hsites : sites.Sublist sites') : Traceable full run replay offers sites' := by
  intro state
  obtain ⟨calls, result, state', hcalls⟩ := h state
  exact ⟨calls, result, state', { hcalls with sublist := hcalls.sublist.trans hsites }⟩

end

namespace Node

variable (visit : String → Site → ExceptT ε (StateM σ) (Signal α))

mutual

theorem traceable_walkAt :
    ∀ (n : Node) (path : String) (above : List Step),
      Traceable (walkAt (recorded visit) path above n) (walkAt visit path above n)
        (fun answer => walkAt (fun _ s => answer s) path above n)
        (fun answer => Site.offeredAt answer above n) (Site.below above n)
  | ⟨label, children⟩, path, above => by
    simp only [walkAt]
    have hbelow : ∀ signal : Signal α,
        Traceable (if signal.descend then do
            let inner ← walkAll (recorded visit) path above ⟨label, children⟩ 0 children
            pure (signal.collect path inner)
          else pure (signal.collect path []))
        (if signal.descend then do
            let inner ← walkAll visit path above ⟨label, children⟩ 0 children
            pure (signal.collect path inner)
          else pure (signal.collect path []))
        (fun answer => if signal.descend then do
            let inner ← walkAll (fun _ s => answer s) path above ⟨label, children⟩ 0 children
            pure (signal.collect path inner)
          else pure (signal.collect path []))
        (fun answer =>
          if signal.descend then Site.offeredAll answer above ⟨label, children⟩ 0 children else [])
        (Site.belowAll above ⟨label, children⟩ 0 children) := by
      intro signal
      split
      · exact (traceable_walkAll children path above ⟨label, children⟩ 0).map _
      · exact traceable_pure _ _
    refine (traceable_visit visit path ⟨⟨label, children⟩, above⟩).bind hbelow ?_ ?_
    · exact fun answer => ⟨_, rfl⟩
    · intro answer signal hsignal
      rw [Site.offeredAt, hsignal]
      rfl

theorem traceable_walkAll :
    ∀ (children : List Node) (path : String) (above : List Step) (parent : Node) (index : Nat),
      Traceable (walkAll (recorded visit) path above parent index children)
        (walkAll visit path above parent index children)
        (fun answer => walkAll (fun _ s => answer s) path above parent index children)
        (fun answer => Site.offeredAll answer above parent index children)
        (Site.belowAll above parent index children)
  | [], path, above, parent, index => traceable_pure [] _
  | c :: rest, path, above, parent, index => by
    have hrest := traceable_walkAll rest path above parent (index + 1)
    simp only [walkAll, Site.offeredAll]
    split
    · refine (traceable_walkAt c _ _).bind (fun here => hrest.map (here ++ ·)) ?_ ?_
      · exact fun answer => List.prefix_append ..
      · exact fun answer here _ => rfl
    · exact hrest.mono (List.sublist_append_right ..)

end

end Node

/-! ## The answers that were given -/

namespace Call

def kept? (c : Call ε α) : Option α := c.answer.toOption.bind Signal.data

def sited? (c : Call ε α) : Option (Site × α) := c.kept?.map (c.site, ·)

open Classical in
/-- The answers that were given, and for all other sites that there is nothing at or below them. -/
noncomputable def answers (calls : List (Call ε α)) (s : Site) : Except ε (Signal α) :=
  if h : ∃ c ∈ calls, c.site = s then h.choose.answer else .ok .prune

variable {calls : List (Call ε α)}

theorem answers_of_mem (hnodup : (calls.map site).Nodup) {c : Call ε α} (hc : c ∈ calls) :
    answers calls c.site = c.answer := by
  have h : ∃ c' ∈ calls, c'.site = c.site := ⟨c, hc, rfl⟩
  rw [answers, dif_pos h, List.inj_on_of_nodup_map hnodup h.choose_spec.1 hc h.choose_spec.2]

theorem exists_of_descends_answers {s : Site} (h : Descends (answers calls s)) :
    ∃ c ∈ calls, c.site = s ∧ Descends c.answer := by
  rw [answers] at h
  split at h
  case isTrue hs => exact ⟨_, hs.choose_spec.1, hs.choose_spec.2, h⟩
  case isFalse =>
    obtain ⟨signal, hsignal, hdescend⟩ := h
    cases hsignal
    cases hdescend

end Call

/-! ## Walks -/

namespace Site

open Classical in
/-- The significant sites below a root that a walk has come to if it makes the given calls: the
visitor was called for all sites around them, and each time the answer was to go on. -/
noncomputable def due (root : Site) (calls : List (Call ε α)) : List Site :=
  root.inside.filter fun t => t.node.isSignificant ∧
    ∀ u ∈ root.inside, t ∈ u.inside → ∃ c ∈ calls, c.site = u ∧ Descends c.answer

/-- What a walk below a root does from `state` on. -/
def Traces (root : Site) (visit : String → Site → ExceptT ε (StateM σ) (Signal α)) :
    σ → List (Call ε α) → Except ε (List (Entry α)) → σ → Prop :=
  Fingerprint.Traces (root.walk (recorded visit)) (root.walk visit)
    (fun answer => root.walk fun _ s => answer s) (fun answer => root.offered answer) root.inside

variable {visit : String → Site → ExceptT ε (StateM σ) (Signal α)} {root : Site}
  {state state' : σ} {calls : List (Call ε α)} {result : Except ε (List (Entry α))}
  {forest : List (Entry α)}

theorem exists_traces (visit : String → Site → ExceptT ε (StateM σ) (Signal α)) (root : Site)
    (state : σ) : ∃ calls result state', root.Traces visit state calls result state' :=
  Node.traceable_walkAll visit root.node.children root.node.kind root.above root.node 0 state

namespace Traces

theorem nodup (h : root.Traces visit state calls result state') :
    (calls.map Call.site).Nodup :=
  (nodup_belowAll ..).sublist h.sublist

theorem answers_eq (h : root.Traces visit state calls result state') :
    ∀ c ∈ calls, Call.answers calls c.site = c.answer :=
  fun _ => Call.answers_of_mem h.nodup

theorem isSignificant (h : root.Traces visit state calls result state') {c : Call ε α}
    (hc : c ∈ calls) : c.site.node.isSignificant := by
  obtain ⟨left, hleft, -⟩ := h.offers_eq _ h.answers_eq
  have hoffered : c.site ∈ root.offered (Call.answers calls) := by
    rw [hleft]
    exact List.mem_append_left _ (List.mem_map_of_mem hc)
  exact (mem_offered.1 hoffered).2.1

theorem offered_answers (h : root.Traces visit state calls result state') :
    root.offered (Call.answers calls) = root.due calls := by
  rw [offered_eq_filter, due]
  refine List.filter_congr fun t _ => decide_eq_decide.2 (and_congr_right fun _ => ?_)
  refine forall₃_congr fun u _ _ => ⟨?_, ?_⟩
  · rintro ⟨-, hdescends⟩
    exact Call.exists_of_descends_answers hdescends
  · rintro ⟨c, hc, rfl, hdescends⟩
    exact ⟨h.isSignificant hc, by rwa [h.answers_eq c hc]⟩

theorem sites_prefix_due (h : root.Traces visit state calls result state') :
    calls.map Call.site <+: root.due calls := by
  obtain ⟨left, hleft, -⟩ := h.offers_eq _ h.answers_eq
  exact ⟨left, by rw [← h.offered_answers, hleft]⟩

theorem sites_eq_due (h : root.Traces visit state calls (.ok forest) state') :
    calls.map Call.site = root.due calls := by
  obtain ⟨left, hleft, hnone⟩ := h.offers_eq _ h.answers_eq
  rw [← h.offered_answers, hleft, hnone forest rfl, List.append_nil]

/-- A walk that succeeds is the walk with the same answers of a visitor without state. -/
theorem walk_answers (h : root.Traces visit state calls (.ok forest) state') :
    root.walk (fun _ s => Call.answers calls s) = .ok forest :=
  h.replay_eq _ h.answers_eq

theorem filterMap_offered (h : root.Traces visit state calls (.ok forest) state') {β : Type}
    (f : Site → Option α → Option β) :
    (root.offered (Call.answers calls)).filterMap
        (fun s => f s (kept? (Call.answers calls) s)) =
      calls.filterMap fun c => f c.site c.kept? := by
  rw [h.offered_answers, ← h.sites_eq_due, List.filterMap_map]
  refine List.filterMap_congr fun c hc => ?_
  rw [Function.comp_apply, kept?, h.answers_eq c hc, Call.kept?]

theorem toListAll_eq (h : root.Traces visit state calls (.ok forest) state') :
    Entry.toListAll forest = calls.filterMap Call.kept? :=
  (toListAll_walk h.walk_answers).trans (h.filterMap_offered fun _ kept => kept)

theorem exists_mirrors (h : root.Traces visit state calls (.ok forest) state') :
    ∃ sited, Entry.mapAll Prod.snd sited = forest ∧
      Entry.Mirrors sited (calls.filterMap Call.sited?) := by
  obtain ⟨sited, hforest, hmirrors⟩ := exists_mirrors_of_walk h.walk_answers
  rw [h.filterMap_offered fun s kept => kept.map (s, ·)] at hmirrors
  exact ⟨sited, hforest, hmirrors⟩

end Traces

/-- The loop does what the recursion does, and ends.  It calls the visitor once for each site that
is due, in pre-order; what was kept is in the forest in the order of the calls, each entry right
below the one for the nearest site around its own that something was kept for.  If a call fails it
is the last one, and the walk fails with its fault. -/
theorem traverse_calls (visit : String → Site → ExceptT ε (StateM σ) (Signal α)) (root : Site)
    (state : σ) :
    root.traverse visit = root.walk visit ∧
    ∃ calls : List (Call ε α),
      root.traverse (recorded visit) (state, []) =
        ((root.traverse visit state).1, (root.traverse visit state).2, calls) ∧
      (calls.map Call.site).Nodup ∧
      match (root.traverse visit state).1 with
      | .ok forest =>
        calls.map Call.site = root.due calls ∧
        (∀ c ∈ calls, ∃ signal, c.answer = .ok signal) ∧
        Entry.toListAll forest = calls.filterMap Call.kept? ∧
        ∃ sited, Entry.mapAll Prod.snd sited = forest ∧
          Entry.Mirrors sited (calls.filterMap Call.sited?)
      | .error e =>
        calls.map Call.site <+: root.due calls ∧
        ∃ done last, calls = done ++ [last] ∧ last.answer = .error e ∧
          ∀ c ∈ done, ∃ signal, c.answer = .ok signal := by
  refine ⟨root.traverse_eq_walk visit, ?_⟩
  obtain ⟨calls, result, state', h⟩ := exists_traces visit root state
  have hfull : root.walk (recorded visit) (state, []) = (result, state', calls) := h.full_eq []
  rw [traverse_eq_walk, traverse_eq_walk, h.run_eq]
  refine ⟨calls, hfull, h.nodup, ?_⟩
  cases result with
  | ok forest => exact ⟨h.sites_eq_due, h.ended, h.toListAll_eq, h.exists_mirrors⟩
  | error e => exact ⟨h.sites_prefix_due, h.ended⟩

end Site

end Fingerprint
