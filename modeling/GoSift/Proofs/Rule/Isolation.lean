import GoSift.Proofs.Filter.Relocation
import GoSift.Proofs.Rule.Arrangement
import GoSift.Proofs.Rule.Reports
import GoSift.Proofs.Rule.Safety

/-!
Rules do not interfere. Their filters lie in one registry and run on one stack, but a filter calls only
the functions of its own package and does not look at what others left. So each rule reports in a set
what it reports alone, and the order of the rules does not count.
-/
namespace GoSift

open GoSift.Filter (Registry Stack)

/-- A rule in one registry does what another one does in another registry. -/
structure Rule.Mirrors (r r' : Registry) (a b : Rule) : Prop where
  name : b.name = a.name
  patterns : b.patterns = a.patterns
  report : b.report = a.report
  suggest : b.suggest = a.suggest
  accepts : ∀ m stack, b.accepts r' m stack = a.accepts r m stack

/-- The matches that a rule finds in a file. -/
def Rule.found (rule : Rule) (file : File) : List Pattern.Match :=
  file.visits.flatMap fun node => rule.patterns.flatMap (·.matchesAt node)

/-- Whether the filter of a rule lets a match pass when the stack is empty. -/
def Rule.passes (rule : Rule) (r : Registry) (m : Pattern.Match) : Bool :=
  match rule.accepts r m [] with
  | .ok (ok, _) => ok
  | .error _ => false

/-- The filter of a rule decides on each match in a file. -/
def Rule.Decides (rule : Rule) (r : Registry) (file : File) : Prop :=
  ∀ m ∈ rule.found file, ∃ answer, rule.accepts r m [] = .ok answer

/-- What a rule reports on a file, in the order in which it is found. -/
def Rule.reports (rule : Rule) (r : Registry) (file : File) : List Report :=
  ((rule.found file).filter (rule.passes r)).map (Report.ofMatch rule)

namespace Rule.Mirrors

variable {r r' : Registry} {a b : Rule} (h : a.Mirrors r r' b) {file : File}
include h

theorem found_eq : b.found file = a.found file := by
  simp only [found, h.patterns]

theorem decides_iff : b.Decides r' file ↔ a.Decides r file := by
  simp only [Decides, h.found_eq, h.accepts]

theorem reports_eq : b.reports r' file = a.reports r file := by
  have hmatch : Report.ofMatch b = Report.ofMatch a := by
    funext m
    simp only [Report.ofMatch, h.name, h.report, h.suggest]
  have hpasses : b.passes r' = a.passes r := by
    funext m
    simp only [passes, h.accepts]
  rw [reports, reports, h.found_eq, hmatch, hpasses]

end Rule.Mirrors

/-- The answers of the rules of a set do not depend on the stack, and what is on it stays. -/
def RuleSet.Steady (rs : RuleSet) : Prop :=
  ∀ rule ∈ rs.rules, ∀ m stack,
    rule.accepts rs.registry m stack =
      (rule.accepts rs.registry m []).map fun answer => (answer.1, answer.2 ++ stack)

namespace RuleSet

variable {rs : RuleSet} {file : File}

theorem mem_candidates {p : Rule × Pattern.Match} :
    p ∈ rs.candidates file ↔ p.1 ∈ rs.rules ∧ p.2 ∈ p.1.found file := by
  obtain ⟨rule, m⟩ := p
  simp only [candidates, matchesAt, Rule.found, List.mem_flatMap, List.mem_map, Prod.mk.injEq]
  constructor
  · rintro ⟨node, hnode, _, hrule, pattern, hpattern, _, hm, rfl, rfl⟩
    exact ⟨hrule, node, hnode, pattern, hpattern, hm⟩
  · rintro ⟨hrule, node, hnode, pattern, hpattern, hm⟩
    exact ⟨node, hnode, rule, hrule, pattern, hpattern, m, hm, rfl, rfl⟩

theorem filter_name_eq {rules : List Rule} (hd : (rules.map (·.name)).Nodup) {rule : Rule}
    (h : rule ∈ rules) : rules.filter (·.name = rule.name) = [rule] := by
  induction rules with
  | nil => cases h
  | cons first rules ih =>
    obtain ⟨hfirst, hd⟩ := List.nodup_cons.mp hd
    rcases List.mem_cons.mp h with rfl | h
    · have hnone : rules.filter (·.name = rule.name) = [] := by
        apply List.filter_eq_nil_iff.mpr
        intro other hother he
        exact hfirst (List.mem_map.mpr ⟨other, hother, by simpa using he⟩)
      rw [List.filter_cons_of_pos (by simp), hnone]
    · have hne : first.name ≠ rule.name := fun he => hfirst (List.mem_map.mpr ⟨rule, h, he.symm⟩)
      rw [List.filter_cons_of_neg (by simpa using hne), ih hd h]

theorem matchesAt_eq (node : Node) : rs.matchesAt node =
    rs.rules.flatMap fun rule => (rule.patterns.flatMap (·.matchesAt node)).map (rule, ·) := by
  simp only [matchesAt, List.map_flatMap]

/-- The matches of one of the rules, among all of them. -/
theorem candidates_filter_name (hd : (rs.rules.map (·.name)).Nodup) {rule : Rule}
    (h : rule ∈ rs.rules) :
    (rs.candidates file).filter (·.1.name = rule.name) = (rule.found file).map (rule, ·) := by
  have hrules : ∀ (rules : List Rule) (X : Rule → List Pattern.Match),
      (rules.flatMap fun rule => (X rule).map (rule, ·)).filter (·.1.name = rule.name) =
        (rules.filter (·.name = rule.name)).flatMap fun rule => (X rule).map (rule, ·) := by
    intro rules X
    induction rules with
    | nil => rfl
    | cons first rules ih =>
      rw [List.flatMap_cons, List.filter_append, ih, List.filter_map]
      by_cases hn : first.name = rule.name <;> simp [Function.comp_def, hn]
  rw [candidates, List.filter_flatMap, Rule.found, List.map_flatMap]
  simp only [matchesAt_eq, hrules, filter_name_eq hd h, List.flatMap_singleton]

/-- What passes in a steady set is decided match by match. -/
theorem accepted_eq_ok_iff_decides {ms A : List (Rule × Pattern.Match)} (hsteady : rs.Steady)
    (hms : ∀ p ∈ ms, p.1 ∈ rs.rules) (stack : Stack) :
    accepted rs.registry stack ms = .ok A ↔
      (∀ p ∈ ms, ∃ answer, p.1.accepts rs.registry p.2 [] = .ok answer) ∧
        A = ms.filter fun p => p.1.passes rs.registry p.2 := by
  induction ms generalizing stack A with
  | nil =>
    change Except.ok [] = .ok A ↔ _
    simp [eq_comm]
  | cons p ms ih =>
    obtain ⟨rule, m⟩ := p
    obtain ⟨hrule, hms⟩ := List.forall_mem_cons.mp hms
    -- What the filter leaves on the stack goes into the induction hypothesis, which holds on any stack.
    rw [accepted_cons, List.forall_mem_cons, hsteady rule hrule]
    cases haccepts : rule.accepts rs.registry m [] with
    | error halt => simp [Except.map]
    | ok answer =>
      obtain ⟨ok, own⟩ := answer
      have hpasses : rule.passes rs.registry m = ok := by simp only [Rule.passes, haccepts]
      simp only [Except.map, Except.ok.injEq, Prod.mk.injEq, ih hms, List.filter_cons, hpasses]
      constructor
      · rintro ⟨_, _, _, ⟨rfl, rfl⟩, ⟨hrest, rfl⟩, rfl⟩
        exact ⟨⟨⟨_, rfl⟩, hrest⟩, rfl⟩
      · rintro ⟨⟨-, hrest⟩, rfl⟩
        exact ⟨_, _, _, ⟨rfl, rfl⟩, ⟨hrest, rfl⟩, rfl⟩

/-- A run of a steady set ends if each filter decides. -/
theorem run_eq_ok_of_decides (hsteady : rs.Steady)
    (h : ∀ rule ∈ rs.rules, rule.Decides rs.registry file) : ∃ reports, rs.run file = .ok reports := by
  have hrules : ∀ p ∈ rs.candidates file, p.1 ∈ rs.rules := fun p hp => (mem_candidates.mp hp).1
  have haccepted := (accepted_eq_ok_iff_decides hsteady hrules []).mpr ⟨?_, rfl⟩
  · rw [run, haccepted]
    exact ⟨_, rfl⟩
  · intro p hp
    obtain ⟨hrule, hfound⟩ := mem_candidates.mp hp
    exact h p.1 hrule p.2 hfound

/-- A run of a steady set that ends has for each rule what it reports, arranged. -/
theorem run_eq_ok (hsteady : rs.Steady) (hd : (rs.rules.map (·.name)).Nodup) {reports : List Report}
    (h : rs.run file = .ok reports) :
    (∀ rule ∈ rs.rules, rule.Decides rs.registry file) ∧ reports.Pairwise (·.key < ·.key) ∧
      (∀ report ∈ reports, ∃ rule ∈ rs.rules, report.rule = rule.name) ∧
      ∀ rule ∈ rs.rules,
        reports.filter (·.rule = rule.name) = Report.arrange (rule.reports rs.registry file) := by
  have hrules : ∀ p ∈ rs.candidates file, p.1 ∈ rs.rules := fun p hp => (mem_candidates.mp hp).1
  obtain ⟨A, haccepted, hreports⟩ := except_bind_eq_ok.mp h
  obtain ⟨hdecides, rfl⟩ := (accepted_eq_ok_iff_decides hsteady hrules []).mp haccepted
  cases hreports
  refine ⟨?_, Report.pairwise_arrange _, ?_, ?_⟩
  · intro rule hrule m hm
    exact hdecides (rule, m) (mem_candidates.mpr ⟨hrule, hm⟩)
  · intro report hreport
    obtain ⟨p, hp, rfl⟩ := List.mem_map.mp (Report.mem_of_mem_arrange hreport)
    exact ⟨p.1, hrules p (List.mem_filter.mp hp).1, rfl⟩
  · intro rule hrule
    rw [← Report.arrange_filter_rule, List.filter_map]
    have hown : (rs.candidates file).filter ((fun report : Report => report.rule = rule.name) ∘
        fun p => Report.ofMatch p.1 p.2) = (rule.found file).map (rule, ·) :=
      candidates_filter_name hd hrule
    rw [List.filter_comm, hown, List.filter_map, List.map_map]
    rfl

theorem rules_of_ofSources_singleton {s : RuleSource} (h : ofSources [s] = .ok rs) :
    ∃ rule, rs.rules = [rule] ∧ Rule.build .standard s = .ok (rule, rs.registry) := by
  obtain ⟨-, rule, r, rest, hrule, hrest, hrules, hregistry⟩ := build_cons_eq_ok h
  cases hrest
  rw [hregistry]
  exact ⟨rule, hrules, hrule⟩

/-- The rules of a set that loads have different names. -/
theorem nodup_names_of_build {r : Registry} {taken : List String} {sources : List RuleSource}
    (h : build r taken sources = .ok rs) :
    (rs.rules.map (·.name)).Nodup ∧ ∀ rule ∈ rs.rules, rule.name ∉ taken := by
  induction sources generalizing r taken rs with
  | nil =>
    cases h
    exact ⟨List.nodup_nil, nofun⟩
  | cons s sources ih =>
    obtain ⟨hname, rule, r', rest, hrule, hrest, hrules, -⟩ := build_cons_eq_ok h
    obtain ⟨hnodup, hfree⟩ := ih hrest
    have hrulename := (Rule.build_eq_ok hrule).1.name
    rw [hrules, List.map_cons, List.nodup_cons, List.forall_mem_cons, hrulename]
    refine ⟨⟨?_, hnodup⟩, hname, fun other hother hm => ?_⟩
    · intro hm
      obtain ⟨other, hother, he⟩ := List.mem_map.mp hm
      exact hfree other hother (he ▸ List.mem_cons_self)
    · exact hfree other hother (List.mem_cons_of_mem _ hm)

end RuleSet

/-- A filter does not look at what lies on the stack, and leaves it there. -/
theorem RuleFilter.accepts_under {r : Registry} {f : RuleFilter}
    (hr : Registry.standard.Packed Filter.Wordy r) (hf : f.Bound r) (m : Pattern.Match)
    (stack : Stack) :
    f.accepts r m stack = (f.accepts r m []).map fun answer => (answer.1, answer.2 ++ stack) := by
  obtain ⟨id, hid⟩ := hf.main
  have hunder := hr.eval_under hid ((f.length_args m).trans hf.params) stack
  unfold accepts
  rw [hunder]
  cases f.main.eval r (f.args m) [] with
  | none => rfl
  | some o =>
    obtain ⟨result, own, calls⟩ := o
    cases result <;> rfl

theorem RuleSet.steady_of_bound {rs : RuleSet} (hr : Registry.standard.Packed Filter.Wordy rs.registry)
    (hbound : ∀ rule ∈ rs.rules, ∀ f ∈ rule.filter, f.Bound rs.registry) : rs.Steady := by
  intro rule hrule m stack
  unfold Rule.accepts
  cases hf : rule.filter with
  | none => rfl
  | some f => exact RuleFilter.accepts_under hr (hbound rule hrule f hf) m stack

section

variable {r r' r'' one : Registry} {s : RuleSource}

/-- A filter that is compiled behind others does what it does alone. -/
theorem RuleFilter.accepts_eq_alone {text : String} {patterns : List Pattern} {f g : RuleFilter}
    (hs : s.Plain) (htext : s.filter = some text)
    (hr : Registry.standard.Packed Filter.Wordy r) (hnew : r.Lacks s.name)
    (hg : build r s.name text patterns = .ok (g, r'))
    (hf : build .standard s.name text patterns = .ok (f, one)) (hn : r''.natives = r'.natives)
    (hkeep : ∀ {id : Nat} {g : Filter.Func}, r'.funcs.get? id = some g → r''.funcs.get? id = some g)
    (m : Pattern.Match) (stack : Stack) : g.accepts r'' m stack = f.accepts one m stack := by
  have hempty := Registry.standard_funcs
  obtain ⟨decl, decls, hparse, hparams, -, hlinks, hmain⟩ := links_of_build hs htext hr hnew hg
  obtain ⟨decl₁, decls₁, hparse₁, hparams₁, -, hlinks₁, hmain₁⟩ :=
    links_of_build hs htext .base (Registry.standard_lacks _) hf
  -- Both registries hold the same declarations, behind natives only and behind other packages.
  obtain ⟨rfl, rfl⟩ := List.cons.inj (Except.ok.inj (hparse.symm.trans hparse₁))
  have hargs : g.args m = f.args m := by
    simp only [args, Except.ok.inj (hparams.symm.trans hparams₁)]
  have hrenames :=
    (hlinks₁.renames hlinks hempty (hr.natives Registry.standard_built)).keep hn hkeep
  have hpos : 0 < one.funcs.size := by
    rw [hlinks₁.holds.size, List.length_cons]
    omega
  obtain ⟨f₁, g₁, places, hf₁, hg₁, halike⟩ := hrenames.funcs 0 hpos
  rw [hempty] at hmain₁
  obtain rfl : f₁ = f.main := Option.some.inj (hf₁.symm.trans hmain₁)
  obtain rfl : g₁ = g.main := Option.some.inj (hg₁.symm.trans (hkeep hmain))
  unfold accepts
  rw [hargs, halike.eval_eq hrenames]

theorem Rule.mirrors_of_build {a b : Rule} (hs : s.Plain)
    (hr : Registry.standard.Packed Filter.Wordy r) (hnew : r.Lacks s.name)
    (hb : build r s = .ok (b, r')) (ha : build .standard s = .ok (a, one))
    (hn : r''.natives = r'.natives)
    (hkeep : ∀ {id : Nat} {g : Filter.Func}, r'.funcs.get? id = some g → r''.funcs.get? id = some g) :
    a.Mirrors one r'' b := by
  obtain ⟨hofa, hfa⟩ := build_eq_ok ha
  obtain ⟨hofb, hfb⟩ := build_eq_ok hb
  have hpatterns : b.patterns = a.patterns :=
    Except.ok.inj (hofb.patterns.symm.trans hofa.patterns)
  refine ⟨hofb.name.trans hofa.name.symm, hpatterns, hofb.report.trans hofa.report.symm,
    hofb.suggest.trans hofa.suggest.symm, fun m stack => ?_⟩
  rcases hfa with ⟨hnone, hf, -⟩ | ⟨text, f, htext, hf, hbuild⟩
  · rcases hfb with ⟨-, hg, -⟩ | ⟨text, g, htext, -⟩
    · simp only [accepts, hf, hg]
    · rw [hnone] at htext
      cases htext
  · rcases hfb with ⟨hnone, -⟩ | ⟨_, g, htext', hg, hbuild'⟩
    · rw [hnone] at htext
      cases htext
    · obtain rfl := Option.some.inj (htext.symm.trans htext')
      rw [hpatterns] at hbuild'
      simp only [accepts, hf, hg]
      exact RuleFilter.accepts_eq_alone hs htext hr hnew hbuild' hbuild hn hkeep m stack

end

/-- A rule does what the rule of a source does alone. -/
def Rule.ActsAlone (r : Registry) (s : RuleSource) (rule : Rule) : Prop :=
  rule.name = s.name ∧ ∀ one, RuleSet.ofSources [s] = .ok one →
    ∃ a, one.rules = [a] ∧ a.Mirrors one.registry r rule

namespace RuleSet

/-- The rules of a set act like those of their sources alone. -/
theorem actsAlone_of_build {sources : List RuleSource} {r : Registry} {taken : List String}
    {rs : RuleSet} (hs : ∀ s ∈ sources, s.Plain) (hr : Registry.standard.Packed Filter.Wordy r)
    (hfree : ∀ name, name ∉ taken → r.Lacks name) (h : build r taken sources = .ok rs) :
    (∀ s ∈ sources, ∃ rule ∈ rs.rules, rule.ActsAlone rs.registry s) ∧
      ∀ rule ∈ rs.rules, ∃ s ∈ sources, rule.ActsAlone rs.registry s := by
  induction sources generalizing r taken rs with
  | nil =>
    cases h
    exact ⟨nofun, nofun⟩
  | cons s sources ih =>
    obtain ⟨hplain, hs⟩ := List.forall_mem_cons.mp hs
    obtain ⟨hname, rule, r', rest, hrule, hrest, hrules, hregistry⟩ := build_cons_eq_ok h
    obtain ⟨hr', hfree', -⟩ := Rule.bound_of_build hplain hr hfree hname hrule
    -- The functions of this rule stay where they are when later rules are loaded.
    obtain ⟨hpacked, hkeep, -⟩ := bound_of_build hs hr' hfree' hrest
    have hnatives : rest.registry.natives = r'.natives := by
      rw [hpacked.natives Registry.standard_built, hr'.natives Registry.standard_built]
    have hacts : rule.ActsAlone rest.registry s := by
      refine ⟨(Rule.build_eq_ok hrule).1.name, fun one hone => ?_⟩
      obtain ⟨a, ha, hbuild⟩ := rules_of_ofSources_singleton hone
      exact ⟨a, ha, Rule.mirrors_of_build hplain hr (hfree _ hname) hrule hbuild hnatives hkeep⟩
    obtain ⟨hleft, hright⟩ := ih hs hr' hfree' hrest
    rw [hrules, hregistry, List.forall_mem_cons, List.forall_mem_cons]
    refine ⟨⟨⟨rule, List.mem_cons_self, hacts⟩, ?_⟩, ⟨s, List.mem_cons_self, hacts⟩, ?_⟩
    · intro t ht
      obtain ⟨other, hother, hacts⟩ := hleft t ht
      exact ⟨other, List.mem_cons_of_mem _ hother, hacts⟩
    · intro other hother
      obtain ⟨t, ht, hacts⟩ := hright other hother
      exact ⟨t, List.mem_cons_of_mem _ ht, hacts⟩

/-- What is known about a set that loads from plain sources. -/
structure Loaded (sources : List RuleSource) (rs : RuleSet) : Prop where
  packed : Registry.standard.Packed Filter.Wordy rs.registry
  bound : ∀ rule ∈ rs.rules, ∀ f ∈ rule.filter, f.Bound rs.registry
  names : (rs.rules.map (·.name)).Nodup
  rule_of_source : ∀ s ∈ sources, ∃ rule ∈ rs.rules, rule.ActsAlone rs.registry s
  source_of_rule : ∀ rule ∈ rs.rules, ∃ s ∈ sources, rule.ActsAlone rs.registry s

section

variable {sources sources' : List RuleSource} {rs rs' : RuleSet} {file : File}
  {reports reports' : List Report}

theorem loaded_of_ofSources (hs : ∀ s ∈ sources, s.Plain) (h : ofSources sources = .ok rs) :
    rs.Loaded sources := by
  have hfree : ∀ name, name ∉ ([] : List String) → Registry.standard.Lacks name :=
    fun name _ => Registry.standard_lacks name
  obtain ⟨hpacked, -, hbound⟩ := bound_of_build hs .base hfree h
  obtain ⟨hleft, hright⟩ := actsAlone_of_build hs .base hfree h
  exact ⟨hpacked, hbound, (nodup_names_of_build h).1, hleft, hright⟩

namespace Loaded

variable (h : rs.Loaded sources)
include h

theorem steady : rs.Steady :=
  steady_of_bound h.packed h.bound

theorem exists_run_eq_ok (hend : rs.run file ≠ .error .endless) :
    ∃ reports, rs.run file = .ok reports := by
  cases hacc : accepted rs.registry [] (rs.candidates file) with
  | ok A =>
    rw [run, hacc]
    exact ⟨_, rfl⟩
  | error halt =>
    cases halt with
    | endless =>
      rw [run, hacc] at hend
      exact (hend rfl).elim
    | fault e =>
      have hms : ∀ p ∈ rs.candidates file, ∀ f ∈ p.1.filter, f.Bound rs.registry :=
        fun p hp => h.bound p.1 (mem_candidates.mp hp).1
      exact (accepted_ne_fault h.packed hms [] e hacc).elim

/-- A rule that decides in a set decides alone, and reports there what it reports in the set. -/
theorem run_alone (hrun : rs.run file = .ok reports) {s : RuleSource} (hs : s ∈ sources)
    {one : RuleSet} (hone : ofSources [s] = .ok one) (hplain : one.Loaded [s]) :
    one.run file = .ok (reports.filter (·.rule = s.name)) := by
  obtain ⟨hdecides, -, -, hreports⟩ := run_eq_ok h.steady h.names hrun
  obtain ⟨rule, hrule, hname, hacts⟩ := h.rule_of_source s hs
  obtain ⟨a, ha, hmirrors⟩ := hacts one hone
  have haone : a ∈ one.rules := by
    rw [ha]
    exact List.mem_singleton_self a
  have hadecides : ∀ rule' ∈ one.rules, rule'.Decides one.registry file := by
    rw [ha, List.forall_mem_singleton]
    exact hmirrors.decides_iff.mp (hdecides rule hrule)
  obtain ⟨own, hown⟩ := run_eq_ok_of_decides hplain.steady hadecides
  obtain ⟨-, -, hrules, hownreports⟩ := run_eq_ok hplain.steady hplain.names hown
  have hall : own.filter (·.rule = a.name) = own := by
    apply List.filter_eq_self.mpr
    intro report hreport
    obtain ⟨rule', hrule', he⟩ := hrules report hreport
    rw [ha, List.mem_singleton] at hrule'
    simp [he, hrule']
  rw [hown, ← hall, hownreports a haone, ← hmirrors.reports_eq, ← hreports rule hrule, hname]

/-- A set whose rules decide alone has a run. -/
theorem run_of_alone (hone : ∀ s ∈ sources, ∃ one reports, ofSources [s] = .ok one ∧
      one.Loaded [s] ∧ one.run file = .ok reports) : ∃ reports, rs.run file = .ok reports := by
  apply run_eq_ok_of_decides h.steady
  intro rule hrule
  obtain ⟨s, hs, -, hacts⟩ := h.source_of_rule rule hrule
  obtain ⟨one, own, hone, hplain, hown⟩ := hone s hs
  obtain ⟨a, ha, hmirrors⟩ := hacts one hone
  obtain ⟨hdecides, -⟩ := run_eq_ok hplain.steady hplain.names hown
  rw [ha, List.forall_mem_singleton] at hdecides
  exact hmirrors.decides_iff.mpr hdecides

theorem filter_rule_eq_nil (hrun : rs.run file = .ok reports) {name : String}
    (hname : ∀ s ∈ sources, s.name ≠ name) : reports.filter (·.rule = name) = [] := by
  obtain ⟨-, -, hrules, -⟩ := run_eq_ok h.steady h.names hrun
  apply List.filter_eq_nil_iff.mpr
  intro report hreport he
  obtain ⟨rule, hrule, hreport⟩ := hrules report hreport
  obtain ⟨s, hs, hrulename, -⟩ := h.source_of_rule rule hrule
  have hreportname : report.rule = name := by simpa using he
  exact hname s hs (hrulename.symm.trans (hreport.symm.trans hreportname))

end Loaded

end

/-- Rules do not interfere. No rule is named like the type of captured nodes, no filter declares two
functions with one name, and each rule loads alone too. If every filter ends in the run of the set on a
file, the reports of each rule, in their order, are the reports of the rule alone; and the rules in any
other order have the same run, if they load. -/
theorem run_isolated {sources : List RuleSource} {rs : RuleSet} {file : File}
    (hs : ∀ s ∈ sources, s.Plain) (hone : ∀ s ∈ sources, ∃ one, ofSources [s] = .ok one)
    (h : ofSources sources = .ok rs) (hend : rs.run file ≠ .error .endless) :
    ∃ reports, rs.run file = .ok reports ∧
      (∀ s ∈ sources, ∃ one, ofSources [s] = .ok one ∧
        one.run file = .ok (reports.filter (·.rule = s.name))) ∧
      ∀ sources' rs', sources'.Perm sources → ofSources sources' = .ok rs' →
        rs'.run file = .ok reports := by
  have hloaded := loaded_of_ofSources hs h
  obtain ⟨reports, hrun⟩ := hloaded.exists_run_eq_ok hend
  have halone : ∀ s ∈ sources, ∃ one, ofSources [s] = .ok one ∧ one.Loaded [s] ∧
      one.run file = .ok (reports.filter (·.rule = s.name)) := by
    intro s hmem
    obtain ⟨one, hone⟩ := hone s hmem
    have hplain := loaded_of_ofSources (List.forall_mem_singleton.mpr (hs s hmem)) hone
    exact ⟨one, hone, hplain, hloaded.run_alone hrun hmem hone hplain⟩
  refine ⟨reports, hrun, ?_, ?_⟩
  · intro s hmem
    obtain ⟨one, hone, -, hown⟩ := halone s hmem
    exact ⟨one, hone, hown⟩
  · intro sources' rs' hperm h'
    have hloaded' := loaded_of_ofSources (fun s hmem => hs s (hperm.mem_iff.mp hmem)) h'
    have hruns : ∃ reports', rs'.run file = .ok reports' := by
      apply hloaded'.run_of_alone
      intro s hmem
      obtain ⟨one, hone, hplain, hown⟩ := halone s (hperm.mem_iff.mp hmem)
      exact ⟨one, _, hone, hplain, hown⟩
    obtain ⟨reports', hrun'⟩ := hruns
    have heq : ∀ name, reports'.filter (·.rule = name) = reports.filter (·.rule = name) := by
      intro name
      by_cases hname : ∃ s ∈ sources, s.name = name
      · obtain ⟨s, hmem, rfl⟩ := hname
        obtain ⟨one, hone, hplain, hown⟩ := halone s hmem
        have hown' := hloaded'.run_alone hrun' (hperm.mem_iff.mpr hmem) hone hplain
        exact Except.ok.inj (hown'.symm.trans hown)
      · have hnone : ∀ s ∈ sources, s.name ≠ name := fun s hmem he => hname ⟨s, hmem, he⟩
        rw [hloaded.filter_rule_eq_nil hrun hnone,
          hloaded'.filter_rule_eq_nil hrun' fun s hmem => hnone s (hperm.mem_iff.mp hmem)]
    obtain ⟨-, hsorted, -⟩ := run_eq_ok hloaded.steady hloaded.names hrun
    obtain ⟨-, hsorted', -⟩ := run_eq_ok hloaded'.steady hloaded'.names hrun'
    rw [hrun', Report.eq_of_filter_rule_eq hsorted' hsorted heq]

end RuleSet

/-- A rule whose filter lets every call pass. -/
def called : RuleSource where
  name := "called"
  patterns := ["$f()"]
  report := "$f is called"
  filter := some "func keep(f *Var) bool \x7b return true \x7d"

/-- A rule whose filter does the same by a call. -/
def helped : RuleSource where
  name := "helped"
  patterns := ["$f()"]
  report := "$f is called"
  filter := some "func keep(f *Var) bool \x7b return yes() \x7d
    func yes() bool \x7b return true \x7d"

theorem called_plain : called.Plain := by
  refine .of_names ["keep"] (by decide) (by decide) ?_
  rintro _ ⟨⟩
  decide +kernel

theorem helped_plain : helped.Plain := by
  refine .of_names ["keep", "yes"] (by decide) (by decide) ?_
  rintro _ ⟨⟩
  decide +kernel

theorem called_helped_load : ∀ s ∈ [called, helped], ∃ one, RuleSet.ofSources [s] = .ok one := by
  have hload : ((RuleSet.ofSources [called]).toOption.bind fun _ =>
      (RuleSet.ofSources [helped]).toOption.map fun _ => true) = some true := by cbv
  simp only [Option.bind_eq_some_iff, Option.map_eq_some_iff, except_toOption_eq_some] at hload
  obtain ⟨one, hone, one', hone', -⟩ := hload
  simp only [List.forall_mem_cons]
  exact ⟨⟨one, hone⟩, ⟨one', hone'⟩, List.forall_mem_nil _⟩

/-- The functions of the second rule have other numbers in the set than alone. -/
theorem called_helped_isolated : ∃ rs file reports,
    RuleSet.ofSources [called, helped] = .ok rs ∧
      File.parse "package p; func f() \x7b g() \x7d" = .ok file ∧ rs.run file = .ok reports ∧
      reports.map (·.rule) = ["called", "helped"] ∧
      (∀ s ∈ [called, helped], ∃ one, RuleSet.ofSources [s] = .ok one ∧
        one.run file = .ok (reports.filter (·.rule = s.name))) ∧
      ∀ rs', RuleSet.ofSources [helped, called] = .ok rs' → rs'.run file = .ok reports := by
  have hrun : ((RuleSet.ofSources [called, helped]).toOption.bind fun rs =>
      (File.parse "package p; func f() \x7b g() \x7d").toOption.bind fun file =>
        (rs.run file).toOption.map (·.map (·.rule))) = some ["called", "helped"] := by cbv
  simp only [Option.bind_eq_some_iff, Option.map_eq_some_iff, except_toOption_eq_some] at hrun
  obtain ⟨rs, hrs, file, hfile, reports, hreports, hrules⟩ := hrun
  have hend : rs.run file ≠ .error .endless := by
    rw [hreports]
    rintro ⟨⟩
  have hplain : ∀ s ∈ [called, helped], s.Plain := by
    simp only [List.forall_mem_cons]
    exact ⟨called_plain, helped_plain, List.forall_mem_nil _⟩
  obtain ⟨_, hreports', halone, hperm⟩ :=
    RuleSet.run_isolated hplain called_helped_load hrs hend
  obtain rfl := Except.ok.inj (hreports'.symm.trans hreports)
  exact ⟨rs, file, _, hrs, hfile, hreports, hrules, halone,
    fun rs' h' => hperm _ rs' (List.Perm.swap _ _ _) h'⟩

end GoSift
