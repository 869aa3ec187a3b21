import Std.Data.String.ToNat
import Mathlib.Tactic.Common
import Fingerprint.Function.Locator
import Fingerprint.Proofs.Tree.Calls
import Fingerprint.Tree.Rows
/-!
# Addresses

The path that a visitor is given for a node is the address of its site, whatever the visitor did
before.  An address is the route down from the root, written step by step, and can be read back.
The step to a child that hangs under a field names the field only, so addresses tell the sites of a
walk apart just as long as no two siblings among them hang under the same field.
-/

namespace Fingerprint

/-! ## Steps of a route -/

/-- One step of a route: the field that a child hangs under, or else its index. -/
inductive Mark where
  | field (name : String)
  | index (i : Nat)
  deriving DecidableEq, Repr

namespace Mark

def text : Mark → String
  | field name => "." ++ name
  | index i => "[" ++ toString i ++ "]"

def isStart (c : Char) : Bool := c == '.' || c == '['

/-- Fields are identifiers of the grammar, so no step seems to start within one. -/
def IsPlain : Mark → Prop
  | field name => ∀ c ∈ name.toList, isStart c = false
  | index _ => True

theorem isStart_of_isDigit {c : Char} (h : c.isDigit) : isStart c = false := by
  rw [isStart, Bool.or_eq_false_iff, beq_eq_false_iff_ne, beq_eq_false_iff_ne]
  constructor <;> rintro rfl <;> revert h <;> decide

theorem text_injective : Function.Injective text := by
  intro a b h
  have htext := congrArg String.toList h
  cases a <;> cases b <;>
    simp only [text, String.toList_append, Nat.toString_eq_repr] at htext
  case field.field => exact congrArg field (String.toList_injective (List.cons.inj htext).2)
  case field.index => cases (List.cons.inj htext).1
  case index.field => cases (List.cons.inj htext).1
  case index.index =>
    have hdigits := (List.append_left_inj _).1 (List.cons.inj htext).2
    exact congrArg index (Nat.repr_injective (String.toList_injective hdigits))

/-- No step seems to start within another one. -/
theorem exists_toList_text {m : Mark} (h : m.IsPlain) :
    ∃ start rest, m.text.toList = start :: rest ∧ isStart start ∧
      ∀ c ∈ rest, isStart c = false := by
  cases m with
  | field name => exact ⟨'.', name.toList, by simp [text, String.toList_append], by decide, h⟩
  | index i =>
    refine ⟨'[', i.repr.toList ++ [']'], by simp [text, String.toList_append], by decide, ?_⟩
    intro c hc
    rcases List.mem_append.1 hc with hc | hc
    · rw [Nat.toList_repr] at hc
      exact isStart_of_isDigit (Nat.isDigit_of_mem_toDigits (by omega) (by omega) hc)
    · rw [List.mem_singleton.1 hc]
      decide

def written (route : List Mark) : String := String.join (route.map text)

theorem toList_written_cons (m : Mark) (route : List Mark) :
    (written (m :: route)).toList = m.text.toList ++ (written route).toList := by
  rw [written, List.map_cons, String.join_cons, String.toList_append, written]

theorem written_append (a b : List Mark) : written (a ++ b) = written a ++ written b := by
  rw [written, List.map_append, String.join_append, written, written]

theorem written_singleton (m : Mark) : written [m] = m.text := by
  simp [written]

theorem takeWhile_written {route : List Mark} (h : ∀ m ∈ route, m.IsPlain) :
    (written route).toList.takeWhile (fun c => !isStart c) = [] := by
  cases route with
  | nil => simp [written]
  | cons m route =>
    obtain ⟨start, rest, htext, hstart, -⟩ := exists_toList_text (h m List.mem_cons_self)
    rw [toList_written_cons, htext, List.cons_append, List.takeWhile_cons_of_neg]
    simp [hstart]

theorem written_inj {a b : List Mark} (ha : ∀ m ∈ a, m.IsPlain) (hb : ∀ m ∈ b, m.IsPlain) :
    written a = written b ↔ a = b := by
  refine ⟨fun h => ?_, congrArg written⟩
  induction a generalizing b with
  | nil =>
    cases b with
    | nil => rfl
    | cons m b =>
      obtain ⟨start, rest, htext, -, -⟩ := exists_toList_text (hb m List.mem_cons_self)
      have hlist := congrArg String.toList h
      rw [toList_written_cons, htext] at hlist
      cases hlist
  | cons m a ih =>
    obtain ⟨start, rest, htext, -, hrest⟩ := exists_toList_text (ha m List.mem_cons_self)
    cases b with
    | nil =>
      have hlist := congrArg String.toList h
      rw [toList_written_cons, htext] at hlist
      cases hlist
    | cons m' b =>
      obtain ⟨start', rest', htext', -, hrest'⟩ := exists_toList_text (hb m' List.mem_cons_self)
      have hlist := congrArg String.toList h
      rw [toList_written_cons, toList_written_cons, htext, htext', List.cons_append,
        List.cons_append, List.cons.injEq] at hlist
      obtain ⟨rfl, htail⟩ := hlist
      have ha' : ∀ m ∈ a, m.IsPlain := fun m hm => ha m (List.mem_cons_of_mem _ hm)
      have hb' : ∀ m ∈ b, m.IsPlain := fun m hm => hb m (List.mem_cons_of_mem _ hm)
      -- The first step is as long as no other one starts.
      have hrests : rest = rest' := by
        have htake := congrArg (List.takeWhile fun c => !isStart c) htail
        rwa [List.takeWhile_append_of_pos (fun c hc => by rw [hrest c hc]; rfl),
          List.takeWhile_append_of_pos (fun c hc => by rw [hrest' c hc]; rfl),
          takeWhile_written ha', takeWhile_written hb', List.append_nil, List.append_nil] at htake
      subst hrests
      have hwritten := String.toList_injective (List.append_cancel_left htail)
      rw [text_injective (String.toList_injective (htext.trans htext'.symm)),
        ih ha' hb' hwritten]

end Mark

/-! ## Routes and addresses -/

def Node.mark (index : Nat) (child : Node) : Mark :=
  match child.field with
  | some name => .field name
  | none => .index index

/-- Only fields leave two children with the same step. -/
theorem Node.mark_eq_iff {i j : Nat} {c d : Node} :
    c.mark i = d.mark j ↔ c.field = d.field ∧ (c.field = none → i = j) := by
  unfold mark
  cases c.field <;> cases d.field <;> simp

theorem Node.childPath_eq (path : String) (index : Nat) (child : Node) :
    child.childPath path index = path ++ (child.mark index).text := by
  unfold childPath mark
  cases child.field with
  | some name => exact String.append_assoc
  | none => simp only [Mark.text, String.append_assoc]

namespace Site

def marks (n : Node) : List Step → List Mark
  | [] => []
  | step :: above => marks step.parent above ++ [n.mark step.index]

def route (root s : Site) : List Mark :=
  marks s.node (s.above.take (s.above.length - root.above.length))

def address (root s : Site) : String := root.node.kind ++ Mark.written (root.route s)

/-- No field below the root has a character in it that a step starts with. -/
def HasPlainFields (root : Site) : Prop :=
  ∀ s ∈ root.inside, ∀ name ∈ s.node.field, ∀ c ∈ name.toList, Mark.isStart c = false

instance (root : Site) : Decidable root.HasPlainFields :=
  decidable_of_iff (root.inside.all fun s => s.node.field.all fun name =>
    name.toList.all fun c => !Mark.isStart c) (by simp [HasPlainFields, Option.all_eq_true])

variable {root s t : Site}

theorem route_self (root : Site) : root.route root = [] := by
  rw [route, Nat.sub_self, List.take_zero, marks]

theorem route_child (h : root.above.length ≤ s.above.length) (i : Nat) (c : Node) :
    root.route (s.child i c) = root.route s ++ [c.mark i] := by
  have hlength : (s.child i c).above.length - root.above.length =
      s.above.length - root.above.length + 1 := Nat.succ_sub h
  rw [route, hlength]
  rfl

theorem address_self (root : Site) : root.address root = root.node.kind := by
  rw [address, route_self]
  exact String.append_empty

theorem address_child (h : root.above.length ≤ s.above.length) (i : Nat) (c : Node) :
    root.address (s.child i c) = c.childPath (root.address s) i := by
  rw [address, route_child h, Mark.written_append, Mark.written_singleton, ← String.append_assoc,
    Node.childPath_eq, address]

theorem exists_child_of_mem_inside (h : s ∈ root.inside) :
    ∃ p i c, (p = root ∨ p ∈ root.inside) ∧ p.node.children[i]? = some c ∧ s = p.child i c := by
  induction hnode : root.node using Node.induction generalizing root with
  | node n ih =>
    obtain ⟨i, c, hc, rfl | hs⟩ := mem_inside_iff.1 h
    · exact ⟨root, i, c, .inl rfl, hc, rfl⟩
    · obtain ⟨p, j, d, hp, hd, rfl⟩ := ih c (hnode ▸ List.mem_of_getElem? hc) hs rfl
      refine ⟨p, j, d, .inr ?_, hd, rfl⟩
      rcases hp with rfl | hp
      · exact child_mem_inside hc
      · exact mem_inside_trans hp (child_mem_inside hc)

theorem length_above_le (h : s = root ∨ s ∈ root.inside) :
    root.above.length ≤ s.above.length := by
  rcases h with rfl | h
  · exact Nat.le_refl _
  · exact Nat.le_of_lt (length_above_lt_of_mem_inside h)

theorem route_ne_nil (h : s ∈ root.inside) : root.route s ≠ [] := by
  obtain ⟨p, i, c, hp, -, rfl⟩ := exists_child_of_mem_inside h
  rw [route_child (length_above_le hp)]
  exact List.append_ne_nil_of_right_ne_nil _ (List.cons_ne_nil _ _)

theorem HasPlainFields.isPlain_mark (hplain : root.HasPlainFields) (h : s ∈ root.inside)
    (i : Nat) : (s.node.mark i).IsPlain := by
  unfold Node.mark
  cases hfield : s.node.field with
  | some name => exact hplain s h name hfield
  | none => trivial

theorem HasPlainFields.isPlain_of_mem_route (hplain : root.HasPlainFields) (h : s ∈ root.inside) :
    ∀ m ∈ root.route s, m.IsPlain := by
  induction hlength : s.above.length using Nat.strongRecOn generalizing s with
  | ind length ih =>
    obtain ⟨p, i, c, hp, hc, rfl⟩ := exists_child_of_mem_inside h
    intro m hm
    rw [route_child (length_above_le hp), List.mem_append, List.mem_singleton] at hm
    rcases hm with hm | rfl
    · rcases hp with rfl | hp
      · rw [route_self] at hm
        cases hm
      · exact ih p.above.length (hlength ▸ Nat.lt_succ_self _) hp rfl m hm
    · exact hplain.isPlain_mark h i

theorem address_eq_iff (hplain : root.HasPlainFields) (hs : s ∈ root.inside)
    (ht : t ∈ root.inside) : root.address s = root.address t ↔ root.route s = root.route t := by
  rw [address, address, ← Mark.written_inj (hplain.isPlain_of_mem_route hs)
    (hplain.isPlain_of_mem_route ht)]
  constructor
  · intro h
    have hlist := congrArg String.toList h
    rw [String.toList_append, String.toList_append] at hlist
    exact String.toList_injective (List.append_cancel_left hlist)
  · exact congrArg _

/-- Two sites that hang under the same field of the same parent. -/
def Doubles (s t : Site) : Prop :=
  s ≠ t ∧ s.parent? = t.parent? ∧ s.node.field = t.node.field ∧ s.node.field ≠ none

theorem Doubles.route_eq (h : s.Doubles t) (hs : s ∈ root.inside) (ht : t ∈ root.inside) :
    root.route s = root.route t := by
  obtain ⟨p, i, c, hp, -, rfl⟩ := exists_child_of_mem_inside hs
  obtain ⟨q, j, d, -, -, rfl⟩ := exists_child_of_mem_inside ht
  obtain ⟨-, hparent, hfield, hsome⟩ := h
  obtain rfl : p = q := Option.some.inj hparent
  have hmark : c.mark i = d.mark j := Node.mark_eq_iff.2 ⟨hfield, fun hnone => absurd hnone hsome⟩
  rw [route_child (length_above_le hp), route_child (length_above_le hp), hmark]

/-- Where the same route leads to two sites, it leads through two that hang under the same field of
the same parent. -/
theorem exists_doubles_of_route_eq (hs : s ∈ root.inside) (ht : t ∈ root.inside) (hne : s ≠ t)
    (h : root.route s = root.route t) :
    ∃ u ∈ root.inside, ∃ v ∈ root.inside, (s = u ∨ s ∈ u.inside) ∧ (t = v ∨ t ∈ v.inside) ∧
      u.Doubles v := by
  induction hlength : s.above.length using Nat.strongRecOn generalizing s t with
  | ind length ih =>
    obtain ⟨p, i, c, hp, hc, rfl⟩ := exists_child_of_mem_inside hs
    obtain ⟨q, j, d, hq, hd, rfl⟩ := exists_child_of_mem_inside ht
    rw [route_child (length_above_le hp), route_child (length_above_le hq)] at h
    obtain ⟨hroute, hmark⟩ := List.append_inj' h rfl
    by_cases hpq : p = q
    · subst hpq
      obtain ⟨hfield, hindex⟩ := Node.mark_eq_iff.1 (List.cons.inj hmark).1
      refine ⟨_, hs, _, ht, .inl rfl, .inl rfl, hne, rfl, hfield, fun hnone => hne ?_⟩
      obtain rfl := hindex hnone
      rw [Option.some.inj (hc.symm.trans hd)]
    · have hinside : p ∈ root.inside ∧ q ∈ root.inside := by
        rcases hp with rfl | hp <;> rcases hq with rfl | hq
        · exact absurd rfl hpq
        · exact absurd (hroute.symm.trans (route_self _)) (route_ne_nil hq)
        · exact absurd (hroute.trans (route_self _)) (route_ne_nil hp)
        · exact ⟨hp, hq⟩
      obtain ⟨u, hu, v, hv, hpu, hqv, hdoubles⟩ :=
        ih p.above.length (hlength ▸ Nat.lt_succ_self _) hinside.1 hinside.2 hpq hroute rfl
      have hbelow : ∀ {r w : Site} {k : Nat} {e : Node}, r.node.children[k]? = some e →
          r = w ∨ r ∈ w.inside → r.child k e ∈ w.inside := by
        rintro r w k e he (rfl | hr)
        · exact child_mem_inside he
        · exact mem_inside_trans (child_mem_inside he) hr
      exact ⟨u, hu, v, hv, .inr (hbelow hc hpu), .inr (hbelow hd hqv), hdoubles⟩

/-! ## Sites that a walk calls for -/

section Calls

variable {σ ε α : Type} {visit : String → Site → ExceptT ε (StateM σ) (Signal α)}
  {state state' : σ} {calls : List (Call ε α)} {result : Except ε (List (Entry α))}

open Classical in
theorem mem_due : s ∈ root.due calls ↔ s ∈ root.inside ∧ s.node.isSignificant ∧
    ∀ u ∈ root.inside, s ∈ u.inside → ∃ c ∈ calls, c.site = u ∧ Descends c.answer := by
  rw [due, List.mem_filter, decide_eq_true_iff]

namespace Traces

theorem mem_due (h : root.Traces visit state calls result state') {c : Call ε α}
    (hc : c ∈ calls) : c.site ∈ root.due calls :=
  h.sites_prefix_due.subset (List.mem_map_of_mem hc)

theorem mem_inside (h : root.Traces visit state calls result state') {c : Call ε α}
    (hc : c ∈ calls) : c.site ∈ root.inside :=
  (Site.mem_due.1 (h.mem_due hc)).1

theorem exists_call_around (h : root.Traces visit state calls result state') {c : Call ε α}
    (hc : c ∈ calls) {u : Site} (hu : u ∈ root.inside) (haround : c.site = u ∨ c.site ∈ u.inside) :
    ∃ d ∈ calls, d.site = u := by
  rcases haround with heq | hinside
  · exact ⟨c, hc, heq⟩
  · obtain ⟨d, hd, hsite, -⟩ := (Site.mem_due.1 (h.mem_due hc)).2.2 u hu hinside
    exact ⟨d, hd, hsite⟩

/-- Addresses tell the called sites apart just as long as no two of them are doubles. -/
theorem nodup_address_iff (h : root.Traces visit state calls result state')
    (hplain : root.HasPlainFields) :
    (calls.map fun c => root.address c.site).Nodup ↔
      ∀ c ∈ calls, ∀ d ∈ calls, ¬ c.site.Doubles d.site := by
  have hmap : (calls.map fun c => root.address c.site) =
      (calls.map Call.site).map root.address := by
    rw [List.map_map]
    rfl
  rw [hmap, List.nodup_map_iff_inj_on h.nodup]
  constructor
  · intro hinj c hc d hd hdoubles
    have hroute := hdoubles.route_eq (h.mem_inside hc) (h.mem_inside hd)
    exact hdoubles.1 (hinj _ (List.mem_map_of_mem hc) _ (List.mem_map_of_mem hd)
      ((address_eq_iff hplain (h.mem_inside hc) (h.mem_inside hd)).2 hroute))
  · intro hnone s hs t ht haddress
    obtain ⟨c, hc, rfl⟩ := List.mem_map.1 hs
    obtain ⟨d, hd, rfl⟩ := List.mem_map.1 ht
    by_contra hne
    have hroute := (address_eq_iff hplain (h.mem_inside hc) (h.mem_inside hd)).1 haddress
    obtain ⟨u, hu, v, hv, hcu, hdv, hdoubles⟩ :=
      exists_doubles_of_route_eq (h.mem_inside hc) (h.mem_inside hd) hne hroute
    obtain ⟨c', hc', rfl⟩ := h.exists_call_around hc hu hcu
    obtain ⟨d', hd', rfl⟩ := h.exists_call_around hd hv hdv
    exact hnone c' hc' d' hd' hdoubles

end Traces

end Calls

end Site

/-! ## Walks give out addresses -/

namespace Node

section Visit

variable {m : Type → Type} [Monad m] {α : Type} (visit : String → Site → m (Signal α))
  (root : Site)

mutual

theorem walkAt_address : ∀ (n : Node) (above : List Step), root.above.length ≤ above.length →
    walkAt visit (root.address ⟨n, above⟩) above n =
      walkAt (fun _ s => visit (root.address s) s) (root.address ⟨n, above⟩) above n
  | ⟨label, children⟩, above, habove => by
    have hinner := walkAll_address children ⟨label, children⟩ above 0 habove
    simp only [walkAt, hinner]

theorem walkAll_address :
    ∀ (children : List Node) (parent : Node) (above : List Step) (index : Nat),
      root.above.length ≤ above.length →
      walkAll visit (root.address ⟨parent, above⟩) above parent index children =
        walkAll (fun _ s => visit (root.address s) s) (root.address ⟨parent, above⟩) above parent
          index children
  | [], parent, above, index, habove => rfl
  | c :: rest, parent, above, index, habove => by
    have hpath : root.address ⟨c, ⟨parent, index⟩ :: above⟩ =
        c.childPath (root.address ⟨parent, above⟩) index :=
      Site.address_child (s := ⟨parent, above⟩) habove index c
    have hhere := walkAt_address c (⟨parent, index⟩ :: above) (Nat.le_succ_of_le habove)
    rw [hpath] at hhere
    simp only [walkAll, hhere, walkAll_address rest parent above (index + 1) habove]

end

end Visit

end Node

theorem Site.walk_address {m : Type → Type} [Monad m] {α : Type}
    (visit : String → Site → m (Signal α)) (root : Site) :
    root.walk visit = root.walk fun _ s => visit (root.address s) s := by
  have h := Node.walkAll_address visit root root.node.children root.node root.above 0
    (Nat.le_refl _)
  rwa [show Site.mk root.node root.above = root from rfl, root.address_self] at h

namespace Entry

variable {α : Type}

mutual

def listed : Entry α → List (String × α)
  | ⟨path, data, children⟩ => (path, data) :: listedAll children

def listedAll : List (Entry α) → List (String × α)
  | [] => []
  | e :: rest => listed e ++ listedAll rest

end

theorem listedAll_append (a b : List (Entry α)) :
    listedAll (a ++ b) = listedAll a ++ listedAll b := by
  induction a with
  | nil => rfl
  | cons e rest ih => rw [List.cons_append, listedAll, listedAll, ih, List.append_assoc]

end Entry

theorem Signal.listedAll_collect {α : Type} (signal : Signal α) (path : String)
    (inner : List (Entry α)) :
    Entry.listedAll (signal.collect path inner) =
      (signal.data.map (path, ·)).toList ++ Entry.listedAll inner := by
  cases h : signal.data <;> simp [collect, h, Entry.listedAll, Entry.listed]

namespace Site

variable {ε α : Type} {visit : Site → Except ε (Signal α)} {root : Site}

def addressed? (root : Site) (visit : Site → Except ε (Signal α)) (s : Site) :
    Option (String × α) :=
  (kept? visit s).map (root.address s, ·)

mutual

theorem listedAll_walkAt :
    ∀ (n : Node) {above : List Step} {found : List (Entry α)},
      root.above.length ≤ above.length →
      Node.walkAt (fun _ s => visit s) (root.address ⟨n, above⟩) above n = .ok found →
        Entry.listedAll found = (offeredAt visit above n).filterMap (root.addressed? visit)
  | ⟨label, children⟩, above, found, habove, hwalk => by
    rw [Node.walkAt, bind_eq_ok] at hwalk
    obtain ⟨signal, hsignal, hwalk⟩ := hwalk
    have hown : root.addressed? visit ⟨⟨label, children⟩, above⟩ =
        signal.data.map (root.address ⟨⟨label, children⟩, above⟩, ·) := by
      rw [addressed?, kept?, hsignal]
      rfl
    have hcons : ∀ sites,
        (⟨⟨label, children⟩, above⟩ :: sites).filterMap (root.addressed? visit) =
          (signal.data.map (root.address ⟨⟨label, children⟩, above⟩, ·)).toList ++
            sites.filterMap (root.addressed? visit) := by
      intro sites
      rw [List.filterMap_cons, hown]
      cases signal.data <;> rfl
    rw [offeredAt, hsignal, hcons]
    by_cases hdescend : signal.descend = true
    · rw [if_pos hdescend, bind_eq_ok] at hwalk
      obtain ⟨inner, hinner, hwalk⟩ := hwalk
      cases hwalk
      simp only [hdescend, if_true, Signal.listedAll_collect,
        listedAll_walkAll children habove hinner]
    · rw [if_neg hdescend] at hwalk
      cases hwalk
      simp only [hdescend, Bool.false_eq_true, if_false, Signal.listedAll_collect,
        List.filterMap_nil, Entry.listedAll]

theorem listedAll_walkAll :
    ∀ (children : List Node) {above : List Step} {parent : Node} {index : Nat}
      {found : List (Entry α)}, root.above.length ≤ above.length →
      Node.walkAll (fun _ s => visit s) (root.address ⟨parent, above⟩) above parent index
          children = .ok found →
        Entry.listedAll found =
          (offeredAll visit above parent index children).filterMap (root.addressed? visit)
  | [], above, parent, index, found, habove, hwalk => by
    cases hwalk
    rfl
  | c :: rest, above, parent, index, found, habove, hwalk => by
    rw [Node.walkAll] at hwalk
    rw [offeredAll, List.filterMap_append]
    split at hwalk
    case isTrue hsig =>
      rw [bind_eq_ok] at hwalk
      obtain ⟨here, hhere, hwalk⟩ := hwalk
      rw [bind_eq_ok] at hwalk
      obtain ⟨later, hlater, hwalk⟩ := hwalk
      cases hwalk
      have hpath : root.address ⟨c, ⟨parent, index⟩ :: above⟩ =
          c.childPath (root.address ⟨parent, above⟩) index :=
        address_child (s := ⟨parent, above⟩) habove index c
      rw [← hpath] at hhere
      have hdeeper : root.above.length ≤ (Step.mk parent index :: above).length :=
        Nat.le_succ_of_le habove
      rw [if_pos hsig, Entry.listedAll_append, listedAll_walkAt c hdeeper hhere,
        listedAll_walkAll rest habove hlater]
    case isFalse hsig =>
      rw [if_neg hsig, listedAll_walkAll rest habove hwalk]
      rfl

end

theorem listedAll_walk {found : List (Entry α)} (h : root.walk (fun _ s => visit s) = .ok found) :
    Entry.listedAll found = (root.offered visit).filterMap (root.addressed? visit) := by
  rw [walk, ← address_self] at h
  exact listedAll_walkAll root.node.children (Nat.le_refl _) h

/-! ## Traversals -/

section Traversals

variable {σ : Type} {visit : String → Site → ExceptT ε (StateM σ) (Signal α)}
  {state state' : σ} {calls : List (Call ε α)} {forest : List (Entry α)}

theorem Traces.listedAll_eq (h : root.Traces visit state calls (.ok forest) state') :
    Entry.listedAll forest =
      (calls.filterMap Call.sited?).map fun kept => (root.address kept.1, kept.2) := by
  rw [listedAll_walk h.walk_answers]
  refine (h.filterMap_offered fun s kept => kept.map (root.address s, ·)).trans ?_
  rw [List.map_filterMap]
  refine List.filterMap_congr fun c _ => ?_
  rw [Call.sited?, Option.map_map]
  rfl

theorem Traces.paths_eq (h : root.Traces visit state calls (.ok forest) state') :
    (Entry.listedAll forest).map Prod.fst =
      ((calls.filter fun c => c.kept?.isSome).map Call.site).map root.address := by
  rw [h.listedAll_eq, List.map_map, List.map_filterMap, List.map_map, ← List.filterMap_eq_map,
    List.filterMap_filter]
  refine List.filterMap_congr fun c _ => ?_
  rw [Call.sited?]
  cases c.kept? <;> rfl

theorem Traces.nodup_paths_iff (h : root.Traces visit state calls (.ok forest) state')
    (hplain : root.HasPlainFields) :
    ((Entry.listedAll forest).map Prod.fst).Nodup ↔
      ∀ c ∈ calls, ∀ d ∈ calls, c.kept?.isSome → d.kept?.isSome →
        root.route c.site = root.route d.site → c.site = d.site := by
  have hnodup : ((calls.filter fun c => c.kept?.isSome).map Call.site).Nodup :=
    h.nodup.sublist (List.filter_sublist.map _)
  rw [h.paths_eq, List.nodup_map_iff_inj_on hnodup]
  constructor
  · intro hinj c hc d hd hkeptC hkeptD hroute
    refine hinj _ (List.mem_map_of_mem (List.mem_filter.2 ⟨hc, hkeptC⟩)) _
      (List.mem_map_of_mem (List.mem_filter.2 ⟨hd, hkeptD⟩)) ?_
    exact (address_eq_iff hplain (h.mem_inside hc) (h.mem_inside hd)).2 hroute
  · intro hinj s hs t ht haddress
    obtain ⟨c, hc, rfl⟩ := List.mem_map.1 hs
    obtain ⟨d, hd, rfl⟩ := List.mem_map.1 ht
    obtain ⟨hc, hkeptC⟩ := List.mem_filter.1 hc
    obtain ⟨hd, hkeptD⟩ := List.mem_filter.1 hd
    exact hinj c hc d hd hkeptC hkeptD
      ((address_eq_iff hplain (h.mem_inside hc) (h.mem_inside hd)).1 haddress)

/-- Every visitor is given for each site its address, which depends on the site alone.  Two sites
have the same address just if the same fields and indices lead to them; so the addresses that are
given out are all different just if no two of the sites hang under the same field of the same
parent.  Each entry has the address of the site that it was kept for. -/
theorem traverse_addresses (visit : String → Site → ExceptT ε (StateM σ) (Signal α))
    (hplain : root.HasPlainFields) (state : σ) :
    root.traverse visit = root.walk (fun _ s => visit (root.address s) s) ∧
    ∃ calls : List (Call ε α),
      root.traverse (recorded visit) (state, []) =
        ((root.traverse visit state).1, (root.traverse visit state).2, calls) ∧
      (calls.map Call.site).Nodup ∧
      (∀ c ∈ calls, ∀ d ∈ calls, root.address c.site = root.address d.site ↔
        root.route c.site = root.route d.site) ∧
      ((calls.map fun c => root.address c.site).Nodup ↔
        ∀ c ∈ calls, ∀ d ∈ calls, ¬ c.site.Doubles d.site) ∧
      ∀ forest, (root.traverse visit state).1 = .ok forest →
        Entry.listedAll forest =
          ((calls.filterMap Call.sited?).map fun kept => (root.address kept.1, kept.2)) ∧
        (((Entry.listedAll forest).map Prod.fst).Nodup ↔
          ∀ c ∈ calls, ∀ d ∈ calls, c.kept?.isSome → d.kept?.isSome →
            root.route c.site = root.route d.site → c.site = d.site) := by
  refine ⟨by rw [traverse_eq_walk, walk_address], ?_⟩
  obtain ⟨calls, result, state', h⟩ := exists_traces visit root state
  have hfull : root.walk (recorded visit) (state, []) = (result, state', calls) := h.full_eq []
  rw [traverse_eq_walk, traverse_eq_walk, h.run_eq]
  refine ⟨calls, hfull, h.nodup, fun c hc d hd => ?_, h.nodup_address_iff hplain, ?_⟩
  · exact address_eq_iff hplain (h.mem_inside hc) (h.mem_inside hd)
  · rintro forest rfl
    exact ⟨h.listedAll_eq, h.nodup_paths_iff hplain⟩

end Traversals

end Site

/-- The flat form of `x = 1;`. -/
def Node.assignedNumber : List Row :=
  [⟨"program", true, none, 0, 6, 1⟩,
    ⟨"expression_statement", true, none, 0, 6, 2⟩,
    ⟨"assignment_expression", true, none, 0, 5, 3⟩,
    ⟨"identifier", true, some "left", 0, 1, 0⟩,
    ⟨"=", false, none, 2, 3, 0⟩,
    ⟨"number", true, some "right", 4, 5, 0⟩,
    ⟨";", false, none, 5, 6, 0⟩]

def Site.kinds (_ : String) (s : Site) : ExceptT Fault (StateM Unit) (Signal String) :=
  pure (.emit s.node.kind)

theorem Site.traverse_addresses_assignedNumber :
    ∃ t, Node.ofRows? "x = 1;" Node.assignedNumber = some t ∧
      (Site.mk t []).HasPlainFields ∧
      ∃ (calls : List (Call Fault String)) (forest : List (Entry String)),
        (Site.mk t []).traverse (recorded kinds) ((), []) =
          (((Site.mk t []).traverse kinds ()).1, ((Site.mk t []).traverse kinds ()).2, calls) ∧
        ((calls.map fun c => (Site.mk t []).address c.site).Nodup ↔
          ∀ c ∈ calls, ∀ d ∈ calls, ¬ c.site.Doubles d.site) ∧
        ((Site.mk t []).traverse kinds ()).1 = .ok forest ∧
        Entry.listedAll forest =
          ((calls.filterMap Call.sited?).map fun kept =>
            ((Site.mk t []).address kept.1, kept.2)) ∧
        Entry.listedAll forest =
          [("program[0]", "expression_statement"),
            ("program[0][0]", "assignment_expression"),
            ("program[0][0].left", "identifier"), ("program[0][0].right", "number")] := by
  have hrows : ((Node.ofRows? "x = 1;" Node.assignedNumber).map fun t =>
      (decide (Site.mk t []).HasPlainFields,
        ((Site.mk t []).walk kinds ()).1.toOption.map Entry.listedAll)) =
      some (true, some [("program[0]", "expression_statement"),
        ("program[0][0]", "assignment_expression"), ("program[0][0].left", "identifier"),
        ("program[0][0].right", "number")]) := by
    decide +kernel
  obtain ⟨t, ht, hrows⟩ := Option.map_eq_some_iff.1 hrows
  simp only [Prod.mk.injEq, decide_eq_true_eq] at hrows
  obtain ⟨hplain, hwalk⟩ := hrows
  obtain ⟨forest, hforest, hlisted⟩ := Option.map_eq_some_iff.1 hwalk
  rw [toOption_eq_some, ← traverse_eq_walk] at hforest
  obtain ⟨-, calls, hcalls, -, -, hnodup, hentries⟩ := traverse_addresses kinds hplain ()
  exact ⟨t, ht, hplain, calls, forest, hcalls, hnodup, hforest, (hentries forest hforest).1,
    hlisted⟩

/-- The flat form of `class A { m() {} n() {} }`. -/
def Node.twoMethods : List Row :=
  [⟨"program", true, none, 0, 25, 1⟩,
    ⟨"class_declaration", true, none, 0, 25, 3⟩,
    ⟨"class", false, none, 0, 5, 0⟩,
    ⟨"identifier", true, some "name", 6, 7, 0⟩,
    ⟨"class_body", true, some "body", 8, 25, 4⟩,
    ⟨"\x7b", false, none, 8, 9, 0⟩,
    ⟨"method_definition", true, some "member", 10, 16, 3⟩,
    ⟨"property_identifier", true, some "name", 10, 11, 0⟩,
    ⟨"formal_parameters", true, some "parameters", 11, 13, 2⟩,
    ⟨"(", false, none, 11, 12, 0⟩,
    ⟨")", false, none, 12, 13, 0⟩,
    ⟨"statement_block", true, some "body", 14, 16, 2⟩,
    ⟨"\x7b", false, none, 14, 15, 0⟩,
    ⟨"\x7d", false, none, 15, 16, 0⟩,
    ⟨"method_definition", true, some "member", 17, 23, 3⟩,
    ⟨"property_identifier", true, some "name", 17, 18, 0⟩,
    ⟨"formal_parameters", true, some "parameters", 18, 20, 2⟩,
    ⟨"(", false, none, 18, 19, 0⟩,
    ⟨")", false, none, 19, 20, 0⟩,
    ⟨"statement_block", true, some "body", 21, 23, 2⟩,
    ⟨"\x7b", false, none, 21, 22, 0⟩,
    ⟨"\x7d", false, none, 22, 23, 0⟩,
    ⟨"\x7d", false, none, 24, 25, 0⟩]

/-- The members of a class hang under one field, so all its methods have the same address. -/
theorem Site.functionsOnRecord_sameAddress :
    ∃ t forest, Node.ofRows? "class A \x7b m() \x7b\x7d n() \x7b\x7d \x7d"
        Node.twoMethods = some t ∧
      (Site.mk t []).functionsOnRecord {} = .ok forest ∧
      Entry.listedAll forest =
        [("program[0].body.member", ⟨"m", []⟩), ("program[0].body.member", ⟨"n", []⟩)] ∧
      ¬ ((Entry.listedAll forest).map Prod.fst).Nodup := by
  have hrows : ((Node.ofRows? "class A \x7b m() \x7b\x7d n() \x7b\x7d \x7d" Node.twoMethods).map
      fun t => (((Site.mk t []).walk fun _ s => s.node.visit {}).run' []).toOption.map
        Entry.listedAll) =
      some (some [("program[0].body.member", ⟨"m", []⟩),
        ("program[0].body.member", ⟨"n", []⟩)]) := by
    decide +kernel
  obtain ⟨t, ht, hwalk⟩ := Option.map_eq_some_iff.1 hrows
  obtain ⟨forest, hforest, hlisted⟩ := Option.map_eq_some_iff.1 hwalk
  rw [toOption_eq_some, ← traverse_eq_walk] at hforest
  refine ⟨t, forest, ht, hforest, hlisted, ?_⟩
  rw [hlisted]
  decide

end Fingerprint
