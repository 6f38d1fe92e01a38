import GoSift.Proofs.Rule.Loading
import GoSift.Rule.Report
import Mathlib

/-!
Filters do not fault. All filters of a rule set share one registry, to which each adds its functions as a
package. As long as no function takes the place of another there, every instruction of every filter finds
what it refers to.
-/
namespace GoSift

open GoSift.Filter (Registry State)

/-- A rule that is not named like the type of captured nodes and whose filter declares each name once. -/
structure RuleSource.Plain (s : RuleSource) : Prop where
  name : s.name ≠ Filter.varType
  names : ∀ text ∈ s.filter, ∀ decls, Func.parseList text = .ok decls → (decls.map (·.name)).Nodup

theorem RuleSource.Plain.of_names {s : RuleSource} (names : List String) (hd : names.Nodup)
    (hname : s.name ≠ Filter.varType)
    (hnames : ∀ text ∈ s.filter, (Func.parseList text).toOption.map (·.map (·.name)) = some names) :
    s.Plain := by
  refine ⟨hname, fun text htext decls hdecls => ?_⟩
  have hnames := hnames text htext
  rw [hdecls] at hnames
  have hdeclared : decls.map (·.name) = names := Option.some.inj hnames
  rwa [hdeclared]

/-- The function of a filter is registered and has as many parameters as it gets values. -/
structure RuleFilter.Bound (r : Registry) (f : RuleFilter) : Prop where
  main : ∃ id, r.funcs.get? id = some f.main
  params : f.params.length = f.main.sig.params.length

theorem RuleFilter.length_args (f : RuleFilter) (m : Pattern.Match) :
    (f.args m).length = f.params.length := by
  simp [args]

/-- A filter that is compiled adds its functions, and the first of them is the filter. -/
theorem RuleFilter.links_of_build {r r' : Registry} {s : RuleSource} {text : String}
    {patterns : List Pattern} {f : RuleFilter} (hs : s.Plain) (htext : s.filter = some text)
    (hr : Registry.standard.Packed Filter.Wordy r) (hnew : r.Lacks s.name)
    (h : build r s.name text patterns = .ok (f, r')) :
    ∃ decl decls, Func.parseList text = .ok (decl :: decls) ∧
      paramNames s.name (patterns.flatMap (·.captureNames)) decl = .ok f.params ∧
      Registry.standard.Packed Filter.Wordy r' ∧ r.Links s.name (decl :: decls) r' ∧
      r'.funcs.get? r.funcs.size = some f.main := by
  obtain ⟨decl, decls, ids, hparse, hparams, hc, hmain, -⟩ := build_eq_ok h
  have hd := hs.names text htext _ hparse
  have hwordy : ∀ d ∈ decl :: decls, Filter.Wordy s.name d :=
    fun d hd => ⟨hs.name, Func.regularIn_of_parseList hparse d hd⟩
  obtain ⟨hlinks, hids⟩ :=
    Registry.links_of_compilePackage (hr.built Registry.standard_built) hnew hd hc
  refine ⟨decl, decls, hparse, hparams, hr.add hnew hd hwordy hc, hlinks, ?_⟩
  have hfirst : (decl :: decls)[0]? = some decl := rfl
  obtain ⟨known, g, -, -, hg, hget⟩ := hlinks.func hfirst
  rw [Nat.add_zero] at hget
  rw [hids, List.length_cons, List.range'_succ, List.filterMap_cons_some hget] at hmain
  rw [hget, (List.cons.inj hmain).1]

/-- A filter that is compiled is bound to its function. -/
theorem RuleFilter.bound_of_build {r r' : Registry} {s : RuleSource} {text : String}
    {patterns : List Pattern} {f : RuleFilter} (hs : s.Plain) (htext : s.filter = some text)
    (hr : Registry.standard.Packed Filter.Wordy r) (hnew : r.Lacks s.name)
    (h : build r s.name text patterns = .ok (f, r')) :
    Registry.standard.Packed Filter.Wordy r' ∧ f.Bound r' ∧
      ∃ decls, r.Holds s.name decls r' := by
  obtain ⟨decl, decls, -, hparams, hr', hlinks, hmain⟩ := links_of_build hs htext hr hnew h
  refine ⟨hr', ⟨⟨_, hmain⟩, ?_⟩, _, hlinks.holds⟩
  have hfirst : (decl :: decls)[0]? = some decl := rfl
  obtain ⟨known, g, -, -, hg, hget⟩ := hlinks.func hfirst
  obtain rfl : f.main = g := Option.some.inj (hmain.symm.trans hget)
  obtain ⟨sig, params, body, code, scope, hcomp, he⟩ := Filter.compileFunc_eq_ok hg
  obtain ⟨htypes, hsig, -⟩ := Filter.signatureOf_eq_ok hcomp.signature
  obtain ⟨names, hnames, hflat⟩ := except_bind_eq_ok.mp hparams
  have hparams : names.flatten = f.params := Except.ok.inj hflat
  have hmain : f.main.sig = sig := by rw [he]; rfl
  rw [← hparams, length_of_paramNames htypes hnames, hmain, hsig, List.length_map]

/-- A rule that is compiled leaves what was in the registry, takes no name but its own, and its filter
is bound. -/
theorem Rule.bound_of_build {r r' : Registry} {taken : List String} {s : RuleSource} {rule : Rule}
    (hs : s.Plain) (hr : Registry.standard.Packed Filter.Wordy r)
    (hfree : ∀ name, name ∉ taken → r.Lacks name) (hname : s.name ∉ taken)
    (h : build r s = .ok (rule, r')) :
    Registry.standard.Packed Filter.Wordy r' ∧
      (∀ name, name ∉ s.name :: taken → r'.Lacks name) ∧
      (∀ {id : Nat} {g : Filter.Func}, r.funcs.get? id = some g → r'.funcs.get? id = some g) ∧
      ∀ f ∈ rule.filter, f.Bound r' := by
  rcases (build_eq_ok h).2 with ⟨-, hnone, rfl⟩ | ⟨text, f, htext, hf, hbuild⟩
  · rw [hnone]
    exact ⟨hr, fun name hn => hfree name (fun hm => hn (List.mem_cons_of_mem _ hm)), id, nofun⟩
  · obtain ⟨hr', hbound, decls, hholds⟩ :=
      RuleFilter.bound_of_build hs htext hr (hfree _ hname) hbuild
    refine ⟨hr', ?_, hholds.get?_old, ?_⟩
    · intro name hn
      rw [List.mem_cons, not_or] at hn
      exact hholds.lacks (hfree name hn.2) hn.1
    · rw [hf]
      rintro _ ⟨⟩
      exact hbound

/-- The functions of a registry that loading begins with stay, and each filter is bound. -/
theorem RuleSet.bound_of_build {sources : List RuleSource} {r : Registry} {taken : List String}
    {rs : RuleSet} (hs : ∀ s ∈ sources, s.Plain) (hr : Registry.standard.Packed Filter.Wordy r)
    (hfree : ∀ name, name ∉ taken → r.Lacks name) (h : build r taken sources = .ok rs) :
    Registry.standard.Packed Filter.Wordy rs.registry ∧
      (∀ {id : Nat} {g : Filter.Func}, r.funcs.get? id = some g →
        rs.registry.funcs.get? id = some g) ∧
      ∀ rule ∈ rs.rules, ∀ f ∈ rule.filter, f.Bound rs.registry := by
  induction sources generalizing r taken rs with
  | nil =>
    cases h
    exact ⟨hr, id, nofun⟩
  | cons s sources ih =>
    obtain ⟨hplain, hs⟩ := List.forall_mem_cons.mp hs
    obtain ⟨hname, rule, r', rest, hrule, hrest, hrules, hregistry⟩ := build_cons_eq_ok h
    obtain ⟨hr', hfree', hold, hrulef⟩ := Rule.bound_of_build hplain hr hfree hname hrule
    obtain ⟨hpacked, hkeep, hbound⟩ := ih hs hr' hfree' hrest
    rw [hrules, hregistry, List.forall_mem_cons]
    refine ⟨hpacked, fun hg => hkeep (hold hg), ?_, hbound⟩
    intro f hf
    obtain ⟨id, hid⟩ := (hrulef f hf).main
    exact ⟨⟨id, hkeep hid⟩, (hrulef f hf).params⟩

theorem RuleFilter.accepts_ne_fault {r : Registry} {f : RuleFilter}
    (hr : Registry.standard.Packed Filter.Wordy r) (hf : f.Bound r) (m : Pattern.Match)
    (stack : Filter.Stack) (e : Filter.Fault) : f.accepts r m stack ≠ .error (.fault e) := by
  intro h
  unfold accepts at h
  split at h
  · cases h
  · next ho =>
    obtain ⟨id, hid⟩ := hf.main
    obtain ⟨v, _, _, he⟩ := hr.eval_eq_some hid ((f.length_args m).trans hf.params) ho
    cases he
  · cases h

theorem RuleSet.accepted_ne_fault {r : Registry} (hr : Registry.standard.Packed Filter.Wordy r)
    {ms : List (Rule × Pattern.Match)} (hms : ∀ p ∈ ms, ∀ f ∈ p.1.filter, f.Bound r)
    (stack : Filter.Stack) (e : Filter.Fault) : accepted r stack ms ≠ .error (.fault e) := by
  induction ms generalizing stack with
  | nil => exact nofun
  | cons p ms ih =>
    obtain ⟨rule, m⟩ := p
    obtain ⟨hrule, hms⟩ := List.forall_mem_cons.mp hms
    intro h
    rw [accepted] at h
    cases hacc : rule.accepts r m stack with
    | error halt =>
      rw [hacc] at h
      cases h
      unfold Rule.accepts at hacc
      split at hacc
      · cases hacc
      · next f hf => exact RuleFilter.accepts_ne_fault hr (hrule f hf) m stack e hacc
    | ok result =>
      rw [hacc] at h
      cases hrest : accepted r result.2 ms with
      | error halt =>
        have hne := ih hms result.2
        rw [hrest] at hne
        obtain ⟨ok, stack'⟩ := result
        change (accepted r stack' ms >>= _) = _ at h
        rw [hrest] at h
        cases h
        exact hne rfl
      | ok rest =>
        obtain ⟨ok, stack'⟩ := result
        change (accepted r stack' ms >>= _) = _ at h
        rw [hrest] at h
        cases h

/-- A rule set that loads does not fault. No rule is named like the type of captured nodes, and no filter
declares two functions with one name. Then in every run of a filter, for every match and on every stack,
each instruction finds what it refers to and does not fault, and so no run of the rules on a file does. -/
theorem RuleSet.run_never_faults {sources : List RuleSource} {rs : RuleSet}
    (hs : ∀ s ∈ sources, s.Plain) (h : ofSources sources = .ok rs) :
    (∀ rule ∈ rs.rules, ∀ f ∈ rule.filter, ∀ m stack k s,
      (State.start f.main (f.args m) stack).Steps rs.registry k s →
        s.Executable rs.registry ∧ ∀ o, s.step rs.registry = .done o → ∃ v, o.result = .ok v) ∧
      ∀ file e, rs.run file ≠ .error (.fault e) := by
  have hfree : ∀ name, name ∉ ([] : List String) → Registry.standard.Lacks name := by
    intro name _ key _
    rw [Registry.standard_funcs]
    exact Std.HashMap.getElem?_empty
  obtain ⟨hr, -, hbound⟩ := bound_of_build hs .base hfree h
  constructor
  · intro rule hrule f hf m stack k s hsteps
    have hf := hbound rule hrule f hf
    obtain ⟨id, hid⟩ := hf.main
    have hexec := hr.executable hid ((f.length_args m).trans hf.params) hsteps
    exact ⟨hexec, fun o ho => hexec.result_of_done ho⟩
  · intro file e hrun
    have hms : ∀ p ∈ rs.candidates file, ∀ f ∈ p.1.filter, f.Bound rs.registry := by
      intro p hp
      obtain ⟨node, -, hp⟩ := List.mem_flatMap.mp hp
      obtain ⟨rule, hrule, hp⟩ := List.mem_flatMap.mp hp
      obtain ⟨pattern, -, hp⟩ := List.mem_flatMap.mp hp
      obtain ⟨m, -, rfl⟩ := List.mem_map.mp hp
      exact hbound rule hrule
    cases hacc : accepted rs.registry [] (rs.candidates file) with
    | error halt =>
      rw [run, hacc] at hrun
      cases hrun
      exact accepted_ne_fault hr hms [] e hacc
    | ok ms =>
      rw [run, hacc] at hrun
      cases hrun

/-- A rule with a filter that calls a helper declared behind it. -/
def guarded : RuleSource where
  name := "guarded"
  patterns := ["$x = $x"]
  report := "$x is assigned to itself"
  filter := some "func keep(x *Var) bool \x7b return plain(x) \x7d
    func plain(x *Var) bool \x7b return x.Pure() \x7d"

theorem guarded_plain : guarded.Plain := by
  refine .of_names ["keep", "plain"] (by decide) (by decide) ?_
  rintro _ ⟨⟩
  decide +kernel

theorem guarded_never_faults : ∃ rs, RuleSet.ofSources [guarded] = .ok rs ∧
    rs.rules.map (·.filter.isSome) = [true] ∧ ∀ file e, rs.run file ≠ .error (.fault e) := by
  have hload : (RuleSet.ofSources [guarded]).toOption.map (·.rules.map (·.filter.isSome)) =
      some [true] := by cbv
  cases hrs : RuleSet.ofSources [guarded] with
  | error e =>
    rw [hrs] at hload
    cases hload
  | ok rs =>
    rw [hrs] at hload
    have hplain : ∀ s ∈ [guarded], s.Plain := List.forall_mem_singleton.mpr guarded_plain
    exact ⟨rs, rfl, Option.some.inj hload, (RuleSet.run_never_faults hplain hrs).2⟩

/-- A rule whose filter is declared again, with one parameter more. -/
def redeclared : RuleSource where
  name := "redeclared"
  patterns := ["$x = $y"]
  report := "assignment"
  filter := some "func keep(x *Var) bool \x7b return true \x7d
    func keep(x, y *Var) bool \x7b return y == nil \x7d"

/-- The second function is run with the arguments for the first. -/
theorem redeclared_filter_faults : ∃ rs file, RuleSet.ofSources [redeclared] = .ok rs ∧
    File.parse "package p; func f() \x7b a = b \x7d" = .ok file ∧
    rs.run file = .error (.fault .outOfRange) := by
  have hrun : ((RuleSet.ofSources [redeclared]).toOption.bind fun rs =>
      (File.parse "package p; func f() \x7b a = b \x7d").toOption.map fun file =>
        match rs.run file with
        | .error (.fault .outOfRange) => true
        | _ => false) = some true := by cbv
  cases hrs : RuleSet.ofSources [redeclared] with
  | error e =>
    rw [hrs] at hrun
    cases hrun
  | ok rs =>
    rw [hrs] at hrun
    cases hfile : File.parse "package p; func f() \x7b a = b \x7d" with
    | error e =>
      rw [hfile] at hrun
      cases hrun
    | ok file =>
      rw [hfile] at hrun
      refine ⟨rs, file, rfl, rfl, ?_⟩
      have hfault := Option.some.inj hrun
      dsimp only at hfault
      split at hfault
      · assumption
      · cases hfault

end GoSift
