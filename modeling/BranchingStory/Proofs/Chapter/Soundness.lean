import BranchingStory.Proofs.Chapter.Routes
import BranchingStory.Report

/-!
# Sound chapters

A chapter is *sound* among chapters of the given numbers if its entry is a node, every link
leads somewhere, the investigation and the end occur once each, the end leads out of the
chapter to the right place, and routes lead from every track to the investigation and from
there to the end.  Soundness speaks of nodes and routes only.

The checks are exact.  A chapter with distinct names has no error exactly when it is sound
(`Chapter.errors_problems_eq_nil_iff`), and its warnings name exactly the nodes that no route
from the entry reaches (`Chapter.mem_reachProblems_iff`).  Some checks are skipped where others
fail: the link of the end is compared only if it leads somewhere, routes are looked for only
between unique nodes, and reachability needs an entry.  No skipped check hides a fault, since the
check before it has failed with an error.
-/

namespace BranchingStory

namespace Chapter

variable {c : Chapter} {numbers : List Nat} {last : Nat}

/-! ## The rules -/

/-- The rule for a link: it leads to a node of the chapter, to the next chapter if there is
one, or out of the story from the last chapter. -/
def Permits (c : Chapter) (numbers : List Nat) (last : Nat) : Link → Prop
  | .node id => id ∈ c.ids
  | .choice options => ∀ o ∈ options, o.target ∈ c.ids
  | .chapter number => number = c.number + 1 ∧ number ∈ numbers
  | .ending => c.number = last

/-- The rules for a chapter among chapters of the given numbers, the last of which is
`last`. -/
structure Sound (c : Chapter) (numbers : List Nat) (last : Nat) : Prop where
  /-- Some node has the name of the entry. -/
  entry : c.entry ∈ c.ids
  /-- Every link leads somewhere. -/
  links : ∀ n ∈ c.nodes, c.Permits numbers last n.next
  /-- There is one investigation. -/
  oneInvestigation : ∃! n, n ∈ c.nodes ∧ n.kind = .investigation
  /-- There is one end. -/
  oneEnd : ∃! n, n ∈ c.nodes ∧ n.kind = .chapterEnd
  /-- The end leads out of the story from the last chapter, and to the next chapter from
  any other. -/
  endLink : ∀ n ∈ c.nodes, n.kind = .chapterEnd →
    n.next = if c.number = last then .ending else .chapter (c.number + 1)
  /-- Every track that has a node meets at the investigation. -/
  tracksMeet : ∀ t ∈ c.tracks, ∀ first, t.nodes.head? = some first →
    ∀ n ∈ c.nodes, n.kind = .investigation → c.Route first n.id
  /-- The investigation leads to the end. -/
  investigationEnds : ∀ n ∈ c.nodes, n.kind = .investigation →
    ∀ m ∈ c.nodes, m.kind = .chapterEnd → c.Route n.id m.id

/-! ## One check at a time -/

theorem entryProblems_eq_nil_iff : c.entryProblems = [] ↔ c.entry ∈ c.ids := by
  rw [entryProblems, ← contains_iff]
  cases c.contains c.entry <;> simp

theorem brokenTargets_eq_nil_iff {n : Node} :
    c.brokenTargets numbers last n = [] ↔ c.Permits numbers last n.next := by
  cases h : n.next with
  | node id => simp [brokenTargets, h, Permits, ← contains_iff]
  | chapter number => simp [brokenTargets, h, Permits]
  | choice options => simp [brokenTargets, h, Permits, ← contains_iff]
  | ending => simp [brokenTargets, h, Permits]

theorem linkProblems_of_permits {n : Node} (h : c.Permits numbers last n.next) :
    c.linkProblems numbers last n =
      if n.kind = .chapterEnd ∧ n.next ≠ expectedEnd last c.number then
        [.endMismatch c.number n.id (", ".intercalate (expectedEnd last c.number).targets)]
      else [] := by
  rw [linkProblems, brokenTargets_eq_nil_iff.mpr h]

/-- The comparison of the end is skipped where the link is broken, but then the broken link
is reported. -/
theorem linkProblems_eq_nil_iff {n : Node} :
    c.linkProblems numbers last n = [] ↔
      c.Permits numbers last n.next ∧
        (n.kind = .chapterEnd → n.next = expectedEnd last c.number) := by
  by_cases h : c.Permits numbers last n.next
  · rw [linkProblems_of_permits h]
    simp [h]
  · have hbroken : c.brokenTargets numbers last n ≠ [] := mt brokenTargets_eq_nil_iff.mp h
    obtain ⟨target, rest, htargets⟩ := List.exists_cons_of_ne_nil hbroken
    simp [linkProblems, htargets, h]

theorem pathProblems_eq_nil_iff (hids : c.ids.Nodup) {a b : String} (hb : b ∈ c.ids) :
    c.pathProblems a b = [] ↔ c.Route a b := by
  have hreach : b ∈ c.graph.reachable a ↔ c.Route a b := by
    rw [mem_reachable_graph_iff hids]
    refine and_iff_right_of_imp fun h => ?_
    -- A route that ends at a node begins at one, since its first link belongs to a node.
    cases h.cases_head with
    | inl heq => exact heq ▸ hb
    | inr hstep =>
        obtain ⟨_, ⟨n, hn, rfl, _, _⟩, _⟩ := hstep
        exact id_mem_ids hn
  rw [pathProblems, ← hreach]
  by_cases h : b ∈ c.graph.reachable a
  · simp [h]
  · simp [h]

/-- A kind occurs once exactly when one node has it. -/
theorem ofKind_eq_singleton_iff (hids : c.ids.Nodup) {kind : NodeKind} :
    (∃ n, c.ofKind kind = [n]) ↔ ∃! n, n ∈ c.nodes ∧ n.kind = kind := by
  have hmem : ∀ n, n ∈ c.ofKind kind ↔ n ∈ c.nodes ∧ n.kind = kind := by
    intro n
    simp [ofKind]
  have hnodup : (c.ofKind kind).Nodup := (List.Nodup.of_map _ hids).filter _
  simp only [← hmem]
  constructor
  · rintro ⟨n, hn⟩
    exact ⟨n, by simp [hn], fun m hm => by simpa [hn] using hm⟩
  · rintro ⟨n, hn, hunique⟩
    refine ⟨n, ?_⟩
    cases hlist : c.ofKind kind with
    | nil => simp [hlist] at hn
    | cons m rest =>
        cases rest with
        | nil =>
            have hm := hunique m (by simp [hlist])
            rw [hm]
        | cons m' rest =>
            have hm := hunique m (by simp [hlist])
            have hm' := hunique m' (by simp [hlist])
            simp [hlist, hm, hm'] at hnodup

/-- The problems of convergence where each kind occurs once. -/
theorem convergenceProblems_of_unique {i e : Node} (hi : c.ofKind .investigation = [i])
    (he : c.ofKind .chapterEnd = [e]) :
    c.convergenceProblems =
      ((c.tracks.filterMap (·.nodes.head?)).flatMap (c.pathProblems · i.id))
        ++ c.pathProblems i.id e.id := by
  rw [convergenceProblems, hi, he]

/-- A kind that occurs no or several times is reported, so the paths that are not looked for
then hide nothing. -/
theorem unique_of_convergenceProblems_eq_nil (h : c.convergenceProblems = []) :
    ∃ i e, c.ofKind .investigation = [i] ∧ c.ofKind .chapterEnd = [e] := by
  rw [convergenceProblems] at h
  split at h
  · exact ⟨_, _, ‹_›, ‹_›⟩
  · obtain ⟨hi, he⟩ := List.append_eq_nil_iff.mp h
    have hone : ∀ kind, c.countProblems kind = [] → ∃ n, c.ofKind kind = [n] := by
      intro kind hcount
      rw [countProblems] at hcount
      split at hcount
      · exact List.length_eq_one_iff.mp ‹_›
      · simp at hcount
    obtain ⟨i, hi⟩ := hone _ hi
    obtain ⟨e, he⟩ := hone _ he
    exact ⟨i, e, hi, he⟩

theorem mem_of_ofKind_eq_singleton {kind : NodeKind} {n : Node} (h : c.ofKind kind = [n]) :
    n ∈ c.nodes ∧ n.kind = kind := by
  have hn : n ∈ c.ofKind kind := by simp [h]
  simpa [ofKind] using hn

theorem convergenceProblems_eq_nil_iff_of_unique (hids : c.ids.Nodup) {i e : Node}
    (hi : c.ofKind .investigation = [i]) (he : c.ofKind .chapterEnd = [e]) :
    c.convergenceProblems = [] ↔
      (∀ t ∈ c.tracks, ∀ first, t.nodes.head? = some first → c.Route first i.id) ∧
      c.Route i.id e.id := by
  have hiMem := id_mem_ids (mem_of_ofKind_eq_singleton hi).1
  have heMem := id_mem_ids (mem_of_ofKind_eq_singleton he).1
  rw [convergenceProblems_of_unique hi he, List.append_eq_nil_iff, List.flatMap_eq_nil_iff,
    pathProblems_eq_nil_iff hids heMem]
  refine and_congr_left fun _ => ?_
  simp only [List.mem_filterMap, pathProblems_eq_nil_iff hids hiMem]
  constructor
  · intro h t ht first hfirst
    exact h first ⟨t, ht, hfirst⟩
  · rintro h first ⟨t, ht, hfirst⟩
    exact h t ht first hfirst

/-- The check of convergence finds nothing exactly under the four rules on it. -/
theorem convergenceProblems_eq_nil_iff (hids : c.ids.Nodup) :
    c.convergenceProblems = [] ↔
      (∃! n, n ∈ c.nodes ∧ n.kind = .investigation) ∧
      (∃! n, n ∈ c.nodes ∧ n.kind = .chapterEnd) ∧
      (∀ t ∈ c.tracks, ∀ first, t.nodes.head? = some first →
        ∀ n ∈ c.nodes, n.kind = .investigation → c.Route first n.id) ∧
      (∀ n ∈ c.nodes, n.kind = .investigation →
        ∀ m ∈ c.nodes, m.kind = .chapterEnd → c.Route n.id m.id) := by
  -- Both sides give the two nodes, and about these two nodes they say the same.
  constructor
  · intro h
    obtain ⟨i, e, hi, he⟩ := unique_of_convergenceProblems_eq_nil h
    have honeI := (ofKind_eq_singleton_iff hids).mp ⟨i, hi⟩
    have honeE := (ofKind_eq_singleton_iff hids).mp ⟨e, he⟩
    obtain ⟨htracks, hend⟩ := (convergenceProblems_eq_nil_iff_of_unique hids hi he).mp h
    refine ⟨honeI, honeE, fun t ht first hfirst n hn hk => ?_, fun n hn hk m hm hkm => ?_⟩
    · rw [honeI.unique ⟨hn, hk⟩ (mem_of_ofKind_eq_singleton hi)]
      exact htracks t ht first hfirst
    · rw [honeI.unique ⟨hn, hk⟩ (mem_of_ofKind_eq_singleton hi),
        honeE.unique ⟨hm, hkm⟩ (mem_of_ofKind_eq_singleton he)]
      exact hend
  · rintro ⟨honeI, honeE, htracks, hend⟩
    obtain ⟨i, hi⟩ := (ofKind_eq_singleton_iff hids).mpr honeI
    obtain ⟨e, he⟩ := (ofKind_eq_singleton_iff hids).mpr honeE
    obtain ⟨hiMem, hiKind⟩ := mem_of_ofKind_eq_singleton hi
    obtain ⟨heMem, heKind⟩ := mem_of_ofKind_eq_singleton he
    rw [convergenceProblems_eq_nil_iff_of_unique hids hi he]
    exact ⟨fun t ht first hfirst => htracks t ht first hfirst i hiMem hiKind,
      hend i hiMem hiKind e heMem heKind⟩

theorem mem_reachProblems_iff (hids : c.ids.Nodup) {d : Diagnostic} :
    d ∈ c.reachProblems ↔
      c.entry ∈ c.ids ∧ ∃ n ∈ c.nodes, d = .unreachableNode c.number n.id ∧
        ¬ c.Route c.entry n.id := by
  by_cases hentry : c.entry ∈ c.ids
  · have hcontains : c.contains c.entry = true := contains_iff.mpr hentry
    simp only [reachProblems, hcontains, if_true, hentry, true_and, List.mem_map,
      List.mem_filter, decide_eq_true_eq, mem_reachable_graph_iff hids]
    constructor
    · rintro ⟨n, ⟨hn, hroute⟩, rfl⟩
      exact ⟨n, hn, rfl, hroute⟩
    · rintro ⟨n, hn, rfl, hroute⟩
      exact ⟨n, ⟨hn, hroute⟩, rfl⟩
  · simp [reachProblems, contains_iff, hentry]

/-- No node is reported twice as unreachable. -/
theorem nodup_reachProblems (hids : c.ids.Nodup) : c.reachProblems.Nodup := by
  rw [reachProblems]
  split
  · refine List.Nodup.map_on (fun n hn m hm h => ?_) ((List.Nodup.of_map _ hids).filter _)
    have hid : n.id = m.id := by simpa using h
    exact node_ext hids (List.mem_of_mem_filter hn) (List.mem_of_mem_filter hm) hid
  · exact List.nodup_nil

/-! ## All checks together -/

theorem isError_of_mem_linkProblems {n : Node} {d : Diagnostic}
    (h : d ∈ c.linkProblems numbers last n) : d.isError = true := by
  rw [linkProblems] at h
  split at h
  · split at h
    · obtain rfl := List.mem_singleton.mp h
      rfl
    · simp at h
  · obtain ⟨_, _, rfl⟩ := List.mem_map.mp h
    rfl

theorem isError_of_mem_pathProblems {a b : String} {d : Diagnostic}
    (h : d ∈ c.pathProblems a b) : d.isError = true := by
  rw [pathProblems] at h
  split at h
  · simp at h
  · obtain rfl := List.mem_singleton.mp h
    rfl

theorem isError_of_mem_convergenceProblems {d : Diagnostic} (h : d ∈ c.convergenceProblems) :
    d.isError = true := by
  have hcount : ∀ kind, d ∈ c.countProblems kind → d.isError = true := by
    intro kind hd
    rw [countProblems] at hd
    split at hd
    · simp at hd
    · obtain rfl := List.mem_singleton.mp hd
      rfl
  rw [convergenceProblems] at h
  split at h
  · rcases List.mem_append.mp h with h | h
    · obtain ⟨_, _, hd⟩ := List.mem_flatMap.mp h
      exact isError_of_mem_pathProblems hd
    · exact isError_of_mem_pathProblems h
  · rcases List.mem_append.mp h with h | h
    · exact hcount _ h
    · exact hcount _ h

/-- Unreachable nodes are the only warnings, and everything else is an error. -/
theorem isError_of_mem_faults {d : Diagnostic}
    (h : d ∈ c.entryProblems ++ c.nodes.flatMap (c.linkProblems numbers last)
      ++ c.convergenceProblems) : d.isError = true := by
  rcases List.mem_append.mp h with h | h
  · rcases List.mem_append.mp h with h | h
    · rw [entryProblems] at h
      split at h
      · simp at h
      · obtain rfl := List.mem_singleton.mp h
        rfl
    · obtain ⟨_, _, hd⟩ := List.mem_flatMap.mp h
      exact isError_of_mem_linkProblems hd
  · exact isError_of_mem_convergenceProblems h

theorem isError_of_mem_reachProblems {d : Diagnostic} (h : d ∈ c.reachProblems) :
    d.isError = false := by
  rw [reachProblems] at h
  split at h
  · obtain ⟨_, _, rfl⟩ := List.mem_map.mp h
    rfl
  · simp at h

theorem errors_problems : Report.errors (c.problems numbers last) =
    c.entryProblems ++ c.nodes.flatMap (c.linkProblems numbers last) ++ c.convergenceProblems := by
  rw [problems, Report.errors, List.filter_append,
    List.filter_eq_self.mpr fun _ => isError_of_mem_faults,
    List.filter_eq_nil_iff.mpr fun _ h => by simp [isError_of_mem_reachProblems h],
    List.append_nil]

theorem warnings_problems : Report.warnings (c.problems numbers last) = c.reachProblems := by
  rw [problems, Report.warnings, List.filter_append,
    List.filter_eq_nil_iff.mpr fun _ h => by simp [isError_of_mem_faults h],
    List.filter_eq_self.mpr fun _ h => by simp [isError_of_mem_reachProblems h],
    List.nil_append]

/-- A chapter with distinct names has no error exactly when it is sound. -/
theorem errors_problems_eq_nil_iff (hids : c.ids.Nodup) :
    Report.errors (c.problems numbers last) = [] ↔ c.Sound numbers last := by
  rw [errors_problems, List.append_eq_nil_iff, List.append_eq_nil_iff, List.flatMap_eq_nil_iff,
    entryProblems_eq_nil_iff, convergenceProblems_eq_nil_iff hids]
  simp only [linkProblems_eq_nil_iff, expectedEnd]
  constructor
  · rintro ⟨⟨hentry, hlinks⟩, honeI, honeE, htracks, hend⟩
    exact ⟨hentry, fun n hn => (hlinks n hn).1, honeI, honeE, fun n hn => (hlinks n hn).2,
      htracks, hend⟩
  · intro h
    exact ⟨⟨h.entry, fun n hn => ⟨h.links n hn, h.endLink n hn⟩⟩, h.oneInvestigation, h.oneEnd,
      h.tracksMeet, h.investigationEnds⟩

/-- The checks of a chapter with distinct names are exact.  It has no error exactly when it
is sound.  If its entry is a node, its warnings name exactly the nodes that no route from the
entry reaches, each of them once, and otherwise there are none. -/
theorem problems_exact (hids : c.ids.Nodup) (numbers : List Nat) (last : Nat) :
    (Report.errors (c.problems numbers last) = [] ↔ c.Sound numbers last) ∧
    (∀ d, d ∈ Report.warnings (c.problems numbers last) ↔
      c.entry ∈ c.ids ∧ ∃ n ∈ c.nodes, d = .unreachableNode c.number n.id ∧
        ¬ c.Route c.entry n.id) ∧
    (Report.warnings (c.problems numbers last)).Nodup := by
  refine ⟨errors_problems_eq_nil_iff hids, fun d => ?_, ?_⟩
  · rw [warnings_problems]
    exact mem_reachProblems_iff hids
  · rw [warnings_problems]
    exact nodup_reachProblems hids

/-! ## An opening that runs in a circle -/

/-- A chapter whose entry leads back to itself, and so never to the investigation.  All of
its texts are the same. -/
def looping (text : Translations) : Chapter where
  number := 1
  title := text
  entry := "CH1_START"
  tracks := []
  nodes :=
    [⟨"CH1_START", .dialogue, none, text, .node "CH1_START", .shared, ∅⟩,
      ⟨"CH1_INVESTIGATION", .investigation, none, text, .node "CH1_END", .shared, ∅⟩,
      ⟨"CH1_END", .chapterEnd, none, text, .ending, .shared, ∅⟩]

variable {text : Translations}

theorem nodup_ids_looping : (looping text).ids.Nodup := by
  simp [ids, looping]

theorem route_looping_iff {a : String} :
    (looping text).Route "CH1_START" a ↔ a = "CH1_START" := by
  constructor
  · intro h
    induction h with
    | refl => rfl
    | tail _ hleads ih =>
        obtain ⟨n, hn, hid, ht, _⟩ := hleads
        subst ih
        simp [looping] at hn
        rcases hn with rfl | rfl | rfl
        · simpa [Node.localTargets, Link.localTargets] using ht
        · simp at hid
        · simp at hid
  · rintro rfl
    exact Route.refl _

/-- The circle breaks no rule. -/
theorem sound_looping : (looping text).Sound [1] 1 where
  entry := by simp [looping, ids]
  links := by simp [looping, Permits, ids]
  oneInvestigation := by simp [looping, ExistsUnique]
  oneEnd := by simp [looping, ExistsUnique]
  endLink := by simp [looping]
  tracksMeet := by simp [looping]
  investigationEnds := by
    have hleads : (looping text).Leads "CH1_INVESTIGATION" "CH1_END" :=
      ⟨⟨"CH1_INVESTIGATION", .investigation, none, text, .node "CH1_END", .shared, ∅⟩,
        by simp [looping], rfl, List.mem_singleton.mpr rfl, by simp [looping, ids]⟩
    have hinvestigation : ∀ n ∈ (looping text).nodes, n.kind = .investigation →
        n.id = "CH1_INVESTIGATION" := by simp [looping]
    have hend : ∀ n ∈ (looping text).nodes, n.kind = .chapterEnd → n.id = "CH1_END" := by
      simp [looping]
    intro n hn hkind m hm hkind'
    rw [hinvestigation n hn hkind, hend m hm hkind']
    exact Relation.ReflTransGen.single hleads

/-- The circle has warnings and no error. -/
theorem problems_exact_looping : (looping ∅).ids.Nodup ∧
    Report.errors ((looping ∅).problems [1] 1) = [] ∧
    .unreachableNode 1 "CH1_END" ∈ Report.warnings ((looping ∅).problems [1] 1) := by
  have hids : (looping ∅).ids.Nodup := nodup_ids_looping
  obtain ⟨herrors, hwarnings, _⟩ := problems_exact hids [1] 1
  refine ⟨hids, herrors.mpr sound_looping, (hwarnings _).mpr ⟨sound_looping.entry, ?_⟩⟩
  refine ⟨⟨"CH1_END", .chapterEnd, none, ∅, .ending, .shared, ∅⟩, ?_, rfl, ?_⟩
  · simp [looping]
  · intro h
    have hstart := route_looping_iff.mp h
    simp at hstart

end Chapter

end BranchingStory
