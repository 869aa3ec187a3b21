import Fingerprint.Proofs.Tree.Walks
/-!
# Offers

A walk offers just those significant sites below its root that no site around them keeps it from.
What it keeps stands below the nearest site around it that something is kept for.
-/

namespace Fingerprint

def Descends {ε α : Type} (answer : Except ε (Signal α)) : Prop :=
  ∃ signal, answer = .ok signal ∧ signal.descend

namespace Site

variable {ε α : Type} {visit : Site → Except ε (Signal α)}

mutual

theorem offeredAt_sublist (above : List Step) :
    ∀ n : Node, (offeredAt visit above n).Sublist (below above n)
  | ⟨label, children⟩ => by
    rw [offeredAt, below]
    refine List.Sublist.cons_cons _ ?_
    split
    · split
      · exact offeredAll_sublist above ⟨label, children⟩ 0 children
      · exact List.nil_sublist _
    · exact List.nil_sublist _

theorem offeredAll_sublist (above : List Step) (parent : Node) (index : Nat) :
    ∀ children : List Node,
      (offeredAll visit above parent index children).Sublist
        (belowAll above parent index children)
  | [] => List.nil_sublist _
  | c :: rest => by
    rw [offeredAll, belowAll]
    refine List.Sublist.append ?_ (offeredAll_sublist above parent (index + 1) rest)
    split
    · exact offeredAt_sublist _ c
    · exact List.nil_sublist _

end

theorem offered_sublist (root : Site) : (root.offered visit).Sublist root.inside :=
  offeredAll_sublist root.above root.node 0 root.node.children

theorem mem_offeredAt {s t : Site} :
    t ∈ offeredAt visit s.above s.node ↔ t = s ∨ Descends (visit s) ∧ t ∈ s.offered visit := by
  obtain ⟨⟨label, children⟩, above⟩ := s
  rw [offeredAt, List.mem_cons, offered, Descends]
  cases hvisit : visit ⟨⟨label, children⟩, above⟩ with
  | error fault => simp
  | ok signal => cases hdescend : signal.descend <;> simp [hdescend]

theorem mem_offeredAll {t : Site} {above : List Step} {parent : Node} {index : Nat}
    {children : List Node} :
    t ∈ offeredAll visit above parent index children ↔
      ∃ i c, children[i]? = some c ∧ c.isSignificant ∧
        t ∈ offeredAt visit (⟨parent, index + i⟩ :: above) c := by
  induction children generalizing index with
  | nil => simp [offeredAll]
  | cons c rest ih =>
    rw [offeredAll, List.mem_append, ih]
    constructor
    · rintro (h | ⟨i, d, hd, hsig, h⟩)
      · split at h
        case isTrue hsig => exact ⟨0, c, rfl, hsig, h⟩
        case isFalse => cases h
      · exact ⟨i + 1, d, hd, hsig, by rwa [show index + (i + 1) = index + 1 + i by omega]⟩
    · rintro ⟨i, d, hd, hsig, h⟩
      cases i with
      | zero =>
        cases hd
        exact .inl (by rwa [if_pos hsig])
      | succ i =>
        exact .inr ⟨i, d, hd, hsig, by rwa [show index + 1 + i = index + (i + 1) by omega]⟩

theorem mem_offered_iff {s t : Site} :
    t ∈ s.offered visit ↔
      ∃ i c, s.node.children[i]? = some c ∧ c.isSignificant ∧
        (t = s.child i c ∨ Descends (visit (s.child i c)) ∧ t ∈ (s.child i c).offered visit) := by
  rw [offered, mem_offeredAll]
  refine exists_congr fun i => exists_congr fun c => and_congr_right fun _ =>
    and_congr_right fun _ => ?_
  rw [Nat.zero_add]
  exact mem_offeredAt (s := s.child i c)

theorem child_not_mem_inside {s u : Site} {i : Nat} {c : Node} (h : u ∈ s.inside) :
    s.child i c ∉ u.inside := by
  intro hchild
  have hu := length_above_lt_of_mem_inside h
  have hc := length_above_lt_of_mem_inside hchild
  have hlength : (s.child i c).above.length = s.above.length + 1 := rfl
  omega

/-- The sites that a walk offers are the significant ones that it is told to go on to by every site
around them. -/
theorem mem_offered {s t : Site} :
    t ∈ s.offered visit ↔
      t ∈ s.inside ∧ t.node.isSignificant ∧
        ∀ u ∈ s.inside, t ∈ u.inside → u.node.isSignificant ∧ Descends (visit u) := by
  induction hnode : s.node using Node.induction generalizing s with
  | node n ih =>
    rw [mem_offered_iff, mem_inside_iff]
    constructor
    · rintro ⟨i, c, hc, hsig, rfl | ⟨hdescends, ht⟩⟩
      · exact ⟨⟨i, c, hc, .inl rfl⟩, hsig, fun u hu h => absurd h (child_not_mem_inside hu)⟩
      · rw [ih c (hnode ▸ List.mem_of_getElem? hc) rfl] at ht
        obtain ⟨ht, hsigT, haround⟩ := ht
        refine ⟨⟨i, c, hc, .inr ht⟩, hsigT, fun u hu htu => ?_⟩
        -- A site around `t` is the child itself or inside of it.
        rcases eq_or_mem_inside htu ht with rfl | h | h
        · exact ⟨hsig, hdescends⟩
        · exact absurd h (child_not_mem_inside hu)
        · exact haround u h htu
    · rintro ⟨⟨i, c, hc, ht⟩, hsig, haround⟩
      have hchild : s.child i c ∈ s.inside := child_mem_inside hc
      rcases ht with rfl | ht
      · exact ⟨i, c, hc, hsig, .inl rfl⟩
      · obtain ⟨hsigChild, hdescends⟩ := haround _ hchild ht
        refine ⟨i, c, hc, hsigChild, .inr ⟨hdescends, ?_⟩⟩
        exact (ih c (hnode ▸ List.mem_of_getElem? hc) rfl).2
          ⟨ht, hsig, fun u hu htu => haround u (mem_inside_trans hu hchild) htu⟩

/-! ## Walks that fail -/

mutual

theorem exists_offeredAt_of_walkAt_eq_error {e : ε} :
    ∀ (n : Node) {path : String} {above : List Step},
      Node.walkAt (fun _ s => visit s) path above n = .error e →
        ∃ s ∈ offeredAt visit above n, visit s = .error e
  | ⟨label, children⟩, path, above, hwalk => by
    rw [Node.walkAt, bind_eq_error] at hwalk
    rw [offeredAt]
    rcases hwalk with hvisit | ⟨signal, hsignal, hwalk⟩
    · exact ⟨_, List.mem_cons_self, hvisit⟩
    · by_cases hdescend : signal.descend = true
      · rw [if_pos hdescend, bind_eq_error] at hwalk
        rcases hwalk with hinner | ⟨inner, -, hpure⟩
        · obtain ⟨s, hs, hvisit⟩ := exists_offeredAll_of_walkAll_eq_error children hinner
          refine ⟨s, List.mem_cons_of_mem _ ?_, hvisit⟩
          rw [hsignal]
          simp only [hdescend, if_true]
          exact hs
        · cases hpure
      · rw [if_neg hdescend] at hwalk
        cases hwalk

theorem exists_offeredAll_of_walkAll_eq_error {e : ε} :
    ∀ (children : List Node) {path : String} {above : List Step} {parent : Node} {index : Nat},
      Node.walkAll (fun _ s => visit s) path above parent index children = .error e →
        ∃ s ∈ offeredAll visit above parent index children, visit s = .error e
  | [], path, above, parent, index, hwalk => by cases hwalk
  | c :: rest, path, above, parent, index, hwalk => by
    have hlater : Node.walkAll (fun _ s => visit s) path above parent (index + 1) rest = .error e →
        ∃ s ∈ offeredAll visit above parent index (c :: rest), visit s = .error e := by
      intro hrest
      obtain ⟨s, hs, hvisit⟩ := exists_offeredAll_of_walkAll_eq_error rest hrest
      rw [offeredAll]
      exact ⟨s, List.mem_append_right _ hs, hvisit⟩
    rw [Node.walkAll] at hwalk
    by_cases hsig : c.isSignificant = true
    · rw [if_pos hsig, bind_eq_error] at hwalk
      rcases hwalk with hhere | ⟨here, -, hwalk⟩
      · obtain ⟨s, hs, hvisit⟩ := exists_offeredAt_of_walkAt_eq_error c hhere
        rw [offeredAll, if_pos hsig]
        exact ⟨s, List.mem_append_left _ hs, hvisit⟩
      · rw [bind_eq_error] at hwalk
        rcases hwalk with hrest | ⟨later, -, hpure⟩
        · exact hlater hrest
        · cases hpure
    · rw [if_neg hsig] at hwalk
      exact hlater hwalk

end

theorem exists_offered_of_walk_eq_error {root : Site} {e : ε}
    (h : root.walk (fun _ s => visit s) = .error e) :
    ∃ s ∈ root.offered visit, visit s = .error e :=
  exists_offeredAll_of_walkAll_eq_error root.node.children h

/-! ## What is kept at the offers -/

def kept? (visit : Site → Except ε (Signal α)) (s : Site) : Option α :=
  (visit s).toOption.bind Signal.data

mutual

theorem toListAll_walkAt :
    ∀ (n : Node) {path : String} {above : List Step} {found : List (Entry α)},
      Node.walkAt (fun _ s => visit s) path above n = .ok found →
        Entry.toListAll found = (offeredAt visit above n).filterMap (kept? visit)
  | ⟨label, children⟩, path, above, found, hwalk => by
    rw [Node.walkAt, bind_eq_ok] at hwalk
    obtain ⟨signal, hsignal, hwalk⟩ := hwalk
    have hown : kept? visit ⟨⟨label, children⟩, above⟩ = signal.data := by
      rw [kept?, hsignal]
      rfl
    have hcons : ∀ sites, (⟨⟨label, children⟩, above⟩ :: sites).filterMap (kept? visit) =
        signal.data.toList ++ sites.filterMap (kept? visit) := by
      intro sites
      rw [List.filterMap_cons, hown]
      cases signal.data <;> rfl
    rw [offeredAt, hsignal, hcons]
    by_cases hdescend : signal.descend = true
    · rw [if_pos hdescend, bind_eq_ok] at hwalk
      obtain ⟨inner, hinner, hwalk⟩ := hwalk
      cases hwalk
      simp only [hdescend, if_true, Signal.toListAll_collect, toListAll_walkAll children hinner]
    · rw [if_neg hdescend] at hwalk
      cases hwalk
      simp only [hdescend, Bool.false_eq_true, if_false, Signal.toListAll_collect,
        List.filterMap_nil, Entry.toListAll]

theorem toListAll_walkAll :
    ∀ (children : List Node) {path : String} {above : List Step} {parent : Node} {index : Nat}
      {found : List (Entry α)},
      Node.walkAll (fun _ s => visit s) path above parent index children = .ok found →
        Entry.toListAll found =
          (offeredAll visit above parent index children).filterMap (kept? visit)
  | [], path, above, parent, index, found, hwalk => by
    cases hwalk
    rfl
  | c :: rest, path, above, parent, index, found, hwalk => by
    rw [Node.walkAll] at hwalk
    rw [offeredAll, List.filterMap_append]
    split at hwalk
    case isTrue hsig =>
      rw [bind_eq_ok] at hwalk
      obtain ⟨here, hhere, hwalk⟩ := hwalk
      rw [bind_eq_ok] at hwalk
      obtain ⟨later, hlater, hwalk⟩ := hwalk
      cases hwalk
      rw [if_pos hsig, Entry.toListAll_append, toListAll_walkAt c hhere,
        toListAll_walkAll rest hlater]
    case isFalse hsig =>
      rw [if_neg hsig, toListAll_walkAll rest hwalk]
      rfl

end

theorem toListAll_walk {root : Site} {found : List (Entry α)}
    (h : root.walk (fun _ s => visit s) = .ok found) :
    Entry.toListAll found = (root.offered visit).filterMap (kept? visit) :=
  toListAll_walkAll root.node.children h

end Site

/-! ## Where the entries stand -/

/-- The entries of a forest stand as the sites do that they were kept for: right below the nearest
such site around their own, and on top if there is none. -/
structure Entry.Mirrors {α : Type} (forest : List (Entry (Site × α))) (kept : List (Site × α)) :
    Prop where
  preorder : toListAll forest = kept
  parent : ∀ a b, (a, b) ∈ linksAll forest ↔
    a ∈ kept ∧ b ∈ kept ∧ b.1 ∈ a.1.inside ∧ ∀ c ∈ kept, c.1 ∈ a.1.inside → b.1 ∉ c.1.inside
  top : ∀ b, b ∈ forest.map data ↔ b ∈ kept ∧ ∀ a ∈ kept, b.1 ∉ a.1.inside

namespace Entry

variable {α : Type}

theorem NestsAs.mirrors {forest : List (Entry (Site × α))} {root : Site}
    (h : NestsAs Prod.fst forest root.inside) : Mirrors forest (toListAll forest) := by
  have hnodup : (toListAll forest).Nodup :=
    (root.nodup_inside.sublist h.sublist).of_map
  have hmem : ∀ {a b}, (a, b) ∈ nestingsAll forest →
      a ∈ toListAll forest ∧ b ∈ toListAll forest := mem_toListAll_of_mem_nestingsAll forest
  constructor
  case preorder => rfl
  case parent =>
    intro a b
    rw [mem_linksAll_iff hnodup]
    constructor
    · rintro ⟨hab, hbetween⟩
      obtain ⟨ha, hb⟩ := hmem hab
      refine ⟨ha, hb, (h.nested a ha b hb).1 hab, fun c hc hac hcb => ?_⟩
      exact hbetween c ((h.nested a ha c hc).2 hac) ((h.nested c hc b hb).2 hcb)
    · rintro ⟨ha, hb, hab, hbetween⟩
      refine ⟨(h.nested a ha b hb).2 hab, fun c hac hcb => ?_⟩
      have hc := (hmem hac).2
      exact hbetween c hc ((h.nested a ha c hc).1 hac) ((h.nested c hc b hb).1 hcb)
  case top =>
    intro b
    rw [mem_map_data_iff hnodup]
    refine and_congr_right fun hb => ⟨fun h' a ha hab => ?_, fun h' a hab => ?_⟩
    · exact h' a ((h.nested a ha b hb).2 hab)
    · exact h' a (hmem hab).1 ((h.nested a (hmem hab).1 b hb).1 hab)

end Entry

namespace Site

variable {ε α : Type} {visit : Site → Except ε (Signal α)}

theorem eq_filter_of_sublist {sites all : List Site} {p : Site → Prop} [DecidablePred p]
    (h : sites.Sublist all) (hall : all.Nodup) (hmem : ∀ s, s ∈ sites ↔ s ∈ all ∧ p s) :
    sites = all.filter p := by
  have hself : sites.filter p = sites := by
    rw [List.filter_eq_self]
    exact fun s hs => decide_eq_true ((hmem s).1 hs).2
  have hsublist : sites.Sublist (all.filter p) := hself ▸ h.filter p
  refine hsublist.eq_of_length (List.Perm.length_eq ?_)
  rw [List.perm_ext_iff_of_nodup (hall.sublist h) (hall.filter _)]
  intro s
  rw [hmem, List.mem_filter, decide_eq_true_iff]

open Classical in
theorem offered_eq_filter (root : Site) :
    root.offered visit = root.inside.filter fun t =>
      t.node.isSignificant ∧
        ∀ u ∈ root.inside, t ∈ u.inside → u.node.isSignificant ∧ Descends (visit u) :=
  eq_filter_of_sublist root.offered_sublist root.nodup_inside fun _ => mem_offered

def tagged (visit : Site → Except ε (Signal α)) (s : Site) : Except ε (Signal (Site × α)) :=
  (visit s).map (.map (s, ·))

theorem descends_tagged {s : Site} : Descends (tagged visit s) ↔ Descends (visit s) := by
  unfold Descends tagged
  cases visit s <;> simp [Except.map, Signal.map]

theorem offered_tagged (root : Site) : root.offered (tagged visit) = root.offered visit := by
  rw [offered_eq_filter, offered_eq_filter]
  refine List.filter_congr fun t _ => decide_eq_decide.2 (and_congr_right fun _ => ?_)
  exact forall₃_congr fun u _ _ => and_congr_right fun _ => descends_tagged

theorem kept?_tagged (s : Site) : kept? (tagged visit) s = (kept? visit s).map (s, ·) := by
  unfold kept? tagged
  cases visit s <;> rfl

theorem exists_mirrors_of_walk {root : Site} {forest : List (Entry α)}
    (h : root.walk (fun _ s => visit s) = .ok forest) :
    ∃ sited, Entry.mapAll Prod.snd sited = forest ∧
      Entry.Mirrors sited ((root.offered visit).filterMap fun s => (kept? visit s).map (s, ·)) := by
  have huntag : ∀ s, visit s = (tagged visit s).map (.map Prod.snd) := by
    intro s
    unfold tagged
    cases visit s with
    | error e => rfl
    | ok signal =>
      obtain ⟨data, descend⟩ := signal
      cases data <;> rfl
  have hmap : (root.walk fun _ s => visit s) =
      (root.walk fun _ s => tagged visit s).map (Entry.mapAll Prod.snd) :=
    walk_map (fun _ s => huntag s) root
  obtain ⟨sited, hsited, hforest⟩ := map_eq_ok.1 (hmap.symm.trans h)
  refine ⟨sited, hforest, ?_⟩
  have hnests : Entry.NestsAs Prod.fst sited root.inside := by
    refine nestsAs_walk (fun _ s signal hsignal a ha => ?_) hsited
    obtain ⟨own, -, rfl⟩ := map_eq_ok.1 hsignal
    obtain ⟨_, -, rfl⟩ := Option.map_eq_some_iff.1 ha
    rfl
  have hlist : Entry.toListAll sited =
      (root.offered visit).filterMap fun s => (kept? visit s).map (s, ·) := by
    rw [toListAll_walk hsited, offered_tagged]
    exact List.filterMap_congr fun s _ => kept?_tagged s
  exact hlist ▸ hnests.mirrors

end Site

end Fingerprint
