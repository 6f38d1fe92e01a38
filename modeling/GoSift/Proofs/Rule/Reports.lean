import GoSift.Proofs.Rule.Arrangement
import GoSift.Proofs.Rule.Loading
import Mathlib

/-!
What a run of rules returns. The matches that filters let pass are described without the run; a report
stands for the first of them at its place.
-/
namespace GoSift

open GoSift.Filter (Registry Stack)

/-- The place of a match, which is the start of the file for one without a place. -/
def Pattern.Match.place (m : Pattern.Match) : Position :=
  m.node.pos?.getD ⟨1, 1⟩

namespace RuleSet

/-- Filters pass judgement on matches one after the other, each on the stack that the one before it
left, and all of them return. A match is accepted if its rule has no filter or the filter returns true.
-/
inductive Judged (r : Registry) :
    Stack → List (Rule × Pattern.Match) → List (Rule × Pattern.Match) → Prop
  | nil {stack : Stack} : Judged r stack [] []
  | unfiltered {stack : Stack} {rule : Rule} {m : Pattern.Match} {ms A : List (Rule × Pattern.Match)}
      (hf : rule.filter = none) (hrest : Judged r stack ms A) :
      Judged r stack ((rule, m) :: ms) ((rule, m) :: A)
  | pass {stack stack' : Stack} {rule : Rule} {m : Pattern.Match}
      {ms A : List (Rule × Pattern.Match)} {f : RuleFilter} {calls : List Filter.NativeCall}
      (hf : rule.filter = some f)
      (heval : f.main.eval r (f.args m) stack = some ⟨.ok (.bool true), stack', calls⟩)
      (hrest : Judged r stack' ms A) : Judged r stack ((rule, m) :: ms) ((rule, m) :: A)
  | reject {stack stack' : Stack} {rule : Rule} {m : Pattern.Match}
      {ms A : List (Rule × Pattern.Match)} {f : RuleFilter} {v : Filter.Value}
      {calls : List Filter.NativeCall} (hf : rule.filter = some f)
      (heval : f.main.eval r (f.args m) stack = some ⟨.ok v, stack', calls⟩)
      (hv : v ≠ .bool true) (hrest : Judged r stack' ms A) : Judged r stack ((rule, m) :: ms) A

variable {r : Registry} {stack : Stack} {ms A : List (Rule × Pattern.Match)}

theorem accepted_cons {rule : Rule} {m : Pattern.Match} :
    accepted r stack ((rule, m) :: ms) = .ok A ↔
      ∃ ok stack' rest, rule.accepts r m stack = .ok (ok, stack') ∧
        accepted r stack' ms = .ok rest ∧ A = if ok then (rule, m) :: rest else rest := by
  rw [accepted, except_bind_eq_ok]
  constructor
  · rintro ⟨⟨ok, stack'⟩, haccepts, h⟩
    obtain ⟨rest, hrest, h⟩ := except_bind_eq_ok.mp h
    cases h
    exact ⟨ok, stack', rest, haccepts, hrest, rfl⟩
  · rintro ⟨ok, stack', rest, haccepts, hrest, rfl⟩
    refine ⟨_, haccepts, except_bind_eq_ok.mpr ⟨rest, hrest, rfl⟩⟩

theorem asBool_eq_true_iff {v : Filter.Value} : v.asBool = true ↔ v = .bool true := by
  cases v <;> simp [Filter.Value.asBool]

theorem accepts_of_eval {rule : Rule} {m : Pattern.Match} {f : RuleFilter} {stack' : Stack}
    {v : Filter.Value} {calls : List Filter.NativeCall} (hf : rule.filter = some f)
    (heval : f.main.eval r (f.args m) stack = some ⟨.ok v, stack', calls⟩) :
    rule.accepts r m stack = .ok (v.asBool, stack') := by
  simp [Rule.accepts, hf, RuleFilter.accepts, heval]

/-- The matches that are kept are those that are judged so. -/
theorem accepted_eq_ok_iff : accepted r stack ms = .ok A ↔ Judged r stack ms A := by
  constructor
  · intro h
    induction ms generalizing stack A with
    | nil =>
      cases h
      exact .nil
    | cons p ms ih =>
      obtain ⟨rule, m⟩ := p
      obtain ⟨ok, stack', rest, haccepts, hrest, rfl⟩ := accepted_cons.mp h
      have hjudged := ih hrest
      cases hf : rule.filter with
      | none =>
        simp only [Rule.accepts, hf, Except.ok.injEq, Prod.mk.injEq] at haccepts
        obtain ⟨rfl, rfl⟩ := haccepts
        exact .unfiltered hf hjudged
      | some f =>
        simp only [Rule.accepts, hf, RuleFilter.accepts] at haccepts
        split at haccepts
        · cases haccepts
        · cases haccepts
        · next v _ calls heval =>
          cases haccepts
          by_cases hv : v = .bool true
          · subst hv
            exact .pass hf heval hjudged
          · rw [if_neg (asBool_eq_true_iff.not.mpr hv)]
            exact .reject hf heval hv hjudged
  · intro h
    induction h with
    | nil => rfl
    | unfiltered hf _ ih =>
      exact accepted_cons.mpr ⟨true, _, _, by simp [Rule.accepts, hf], ih, rfl⟩
    | pass hf heval _ ih => exact accepted_cons.mpr ⟨_, _, _, accepts_of_eval hf heval, ih, rfl⟩
    | reject hf heval hv _ ih =>
      refine accepted_cons.mpr ⟨_, _, _, accepts_of_eval hf heval, ih, ?_⟩
      rw [if_neg (asBool_eq_true_iff.not.mpr hv)]

/-- The reports of some matches, arranged. -/
theorem run_eq_of_judged {rs : RuleSet} {file : File}
    (h : Judged rs.registry [] (rs.candidates file) A) :
    rs.run file = .ok (Report.arrange (A.map fun (rule, m) => .ofMatch rule m)) := by
  rw [run, accepted_eq_ok_iff.mpr h]
  rfl

/-- When all filters return, the reports are in the strict order of their places and rules, and at each
place a rule has the report of its first accepted match there, or none if there is no such match. -/
theorem run_reports_first_matches {rs : RuleSet} {file : File}
    (h : Judged rs.registry [] (rs.candidates file) A) :
    ∃ reports, rs.run file = .ok reports ∧ reports.Pairwise (·.key < ·.key) ∧
      ∀ pos name, Report.withKey (Report.keyAt pos name) reports =
        ((A.find? fun a => a.1.name = name ∧ a.2.place = pos).map
          fun a => Report.ofMatch a.1 a.2).toList := by
  refine ⟨_, run_eq_of_judged h, Report.pairwise_arrange _, fun pos name => ?_⟩
  rw [Report.withKey_arrange, List.find?_map]
  have hkey : ∀ a : Rule × Pattern.Match, (Report.ofMatch a.1 a.2).key = Report.keyAt pos name ↔
      a.1.name = name ∧ a.2.place = pos := by
    intro a
    change Report.keyAt a.2.place a.1.name = _ ↔ _
    rw [Report.keyAt_eq_iff, and_comm]
  simp only [Function.comp_def, hkey]

end RuleSet

/-- A rule without a filter, both of whose patterns match every assignment of one value. -/
def assigned : RuleSource where
  name := "assigned"
  patterns := ["$x = $y", "$*xs = $*ys"]
  report := "$x is assigned"

/-- A rule whose filter lets no call pass. -/
def repeated : RuleSource where
  name := "repeated"
  patterns := ["$x = $x"]
  report := "$x is assigned to itself"
  filter := some "func keep(x *Var) bool \x7b return x.Pure() \x7d"

theorem assigned_reports_first_matches :
    ∃ rs file A, RuleSet.ofSources [assigned, repeated] = .ok rs ∧
      File.parse "package p; func f() \x7b a = a; g() = g() \x7d" = .ok file ∧
      RuleSet.Judged rs.registry [] (rs.candidates file) A ∧
      A.map (·.1.name) = ["assigned", "assigned", "repeated", "assigned", "assigned"] ∧
      ∃ reports, rs.run file = .ok reports ∧ reports.Pairwise (·.key < ·.key) ∧
        ∀ pos name, Report.withKey (Report.keyAt pos name) reports =
          ((A.find? fun a => a.1.name = name ∧ a.2.place = pos).map
            fun a => Report.ofMatch a.1 a.2).toList := by
  have hrun : ((RuleSet.ofSources [assigned, repeated]).toOption.bind fun rs =>
      (File.parse "package p; func f() \x7b a = a; g() = g() \x7d").toOption.bind fun file =>
        (RuleSet.accepted rs.registry [] (rs.candidates file)).toOption.map (·.map (·.1.name))) =
      some ["assigned", "assigned", "repeated", "assigned", "assigned"] := by cbv
  simp only [Option.bind_eq_some_iff, Option.map_eq_some_iff, except_toOption_eq_some] at hrun
  obtain ⟨rs, hrs, file, hfile, A, hA, hnames⟩ := hrun
  have hjudged := RuleSet.accepted_eq_ok_iff.mp hA
  exact ⟨rs, file, A, hrs, hfile, hjudged, hnames, RuleSet.run_reports_first_matches hjudged⟩

end GoSift
