import GoSift.Proofs.Filter.Packages
import GoSift.Proofs.Outcome
import GoSift.Rule.Load

/-!
What a rule set is made of when it loads: its rules are those of the sources, in their order, and the
filters lie in the registry as packages that are named like the rules.
-/
namespace GoSift

open GoSift.Filter (Registry)

namespace RuleFilter

variable {r r' : Registry} {rule text : String} {patterns : List Pattern} {f : RuleFilter}

theorem build_eq_ok (h : build r rule text patterns = .ok (f, r')) :
    ∃ decl decls ids, Func.parseList text = .ok (decl :: decls) ∧
      paramNames rule (patterns.flatMap (·.captureNames)) decl = .ok f.params ∧
      Filter.compilePackage r rule (decl :: decls) = (r', .ok ids) ∧
      ids.filterMap r'.funcs.get? = f.main :: f.helpers ∧ f.main.sig.results = [.bool] := by
  obtain ⟨decls, hparse, h⟩ := except_bind_eq_ok.mp h
  rw [except_mapError_eq_ok] at hparse
  cases decls with
  | nil => cases h
  | cons decl decls =>
    obtain ⟨params, hparams, h⟩ := except_bind_eq_ok.mp h
    cases hc : Filter.compilePackage r rule (decl :: decls) with
    | mk r₁ ids =>
      rw [hc] at h
      obtain ⟨found, hids, hfound⟩ := except_bind_eq_ok.mp h
      rw [except_mapError_eq_ok] at hids
      clear h
      subst hids
      split at hfound
      · cases hfound
      · next main helpers hmain =>
        split at hfound
        · next hresults =>
          cases hfound
          exact ⟨decl, decls, found, hparse, hparams, hc, hmain, hresults⟩
        · cases hfound

variable {captures : List String}

theorem length_of_fieldParams {pos : Position} {xs : List Expr} {type : Expr} {names : List String}
    (h : fieldParams rule captures (.mk pos xs type) = .ok names) :
    xs ≠ [] ∧ names.length = xs.length := by
  cases xs with
  | nil => cases h
  | cons x xs =>
    refine ⟨List.cons_ne_nil _ _, ?_⟩
    simp only [fieldParams] at h
    exact length_of_mapM h

/-- The values that a filter gets are as many as the parameters of its function. -/
theorem length_of_paramNames {fields : List Field} {params : List (String × Filter.Ty)}
    {names : List (List String)} (hp : Filter.paramTypes fields = .ok params)
    (hn : fields.mapM (fieldParams rule captures) = .ok names) :
    names.flatten.length = params.length := by
  induction fields generalizing params names with
  | nil =>
    cases hp
    cases hn
    rfl
  | cons field fields ih =>
    obtain ⟨pos, xs, type⟩ := field
    rw [List.mapM_cons] at hn
    obtain ⟨first, hfirst, hn⟩ := except_bind_eq_ok.mp hn
    obtain ⟨rest, hrest, hn⟩ := except_bind_eq_ok.mp hn
    cases hn
    obtain ⟨hne, hlen⟩ := length_of_fieldParams hfirst
    rw [Filter.paramTypes] at hp
    split at hp
    · cases hp
    · obtain ⟨later, hlater, hp⟩ := except_bind_eq_ok.mp hp
      cases hp
      have hempty : xs.isEmpty = false := by simpa using hne
      simp [hempty, hlen, ih hlater hrest]

end RuleFilter

namespace Rule

/-- The parts of a rule that its filter has no share in are those of a source. -/
structure Of (s : RuleSource) (rule : Rule) : Prop where
  name : rule.name = s.name
  patterns : (s.patterns.mapM fun text => (Pattern.compile text).mapError (RuleError.pattern s.name text)) =
    .ok rule.patterns
  report : rule.report = s.report
  suggest : rule.suggest = s.suggest

variable {r r' : Registry} {s : RuleSource} {rule : Rule}

theorem build_eq_ok (h : build r s = .ok (rule, r')) :
    rule.Of s ∧
      (s.filter = none ∧ rule.filter = none ∧ r' = r ∨
        ∃ text f, s.filter = some text ∧ rule.filter = some f ∧
          RuleFilter.build r s.name text rule.patterns = .ok (f, r')) := by
  rw [build] at h
  by_cases hempty : s.patterns.isEmpty = true
  · rw [if_pos hempty] at h
    cases h
  · rw [if_neg hempty] at h
    obtain ⟨patterns, hpatterns, h⟩ := except_bind_eq_ok.mp h
    cases hf : s.filter with
    | none =>
      rw [hf] at h
      cases h
      exact ⟨⟨rfl, hpatterns, rfl, rfl⟩, Or.inl ⟨rfl, rfl, rfl⟩⟩
    | some text =>
      rw [hf] at h
      obtain ⟨⟨f, r₁⟩, hbuild, h⟩ := except_bind_eq_ok.mp h
      cases h
      exact ⟨⟨rfl, hpatterns, rfl, rfl⟩, Or.inr ⟨text, f, rfl, rfl, hbuild⟩⟩

end Rule

theorem RuleSet.build_cons_eq_ok {r : Registry} {taken : List String} {s : RuleSource}
    {sources : List RuleSource} {rs : RuleSet} (h : build r taken (s :: sources) = .ok rs) :
    s.name ∉ taken ∧ ∃ rule r' rest, Rule.build r s = .ok (rule, r') ∧
      build r' (s.name :: taken) sources = .ok rest ∧ rs.rules = rule :: rest.rules ∧
      rs.registry = rest.registry := by
  rw [build] at h
  by_cases htaken : s.name ∈ taken
  · rw [if_pos htaken] at h
    cases h
  · rw [if_neg htaken] at h
    obtain ⟨⟨rule, r'⟩, hrule, h⟩ := except_bind_eq_ok.mp h
    obtain ⟨rest, hrest, h⟩ := except_bind_eq_ok.mp h
    cases h
    exact ⟨htaken, rule, r', rest, hrule, hrest, rfl, rfl⟩

end GoSift
