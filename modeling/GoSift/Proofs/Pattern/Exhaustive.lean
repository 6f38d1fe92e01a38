import GoSift.Pattern.Find
import GoSift.Pattern.Source
import GoSift.Proofs.Outcome
import GoSift.Proofs.Syntax.Addresses
import GoSift.Syntax.Parse

/-!
A search misses nothing and finds nothing twice: what it finds in a file is what the pattern matches at
the addresses in the functions of the file, in the order of addresses.
-/
namespace GoSift.Pattern

theorem findInFile_eq_filterMap {p : Pattern} (h : p.isList = false) (file : File) :
    p.findInFile file = file.visits.filterMap p.matchNode? := by
  rw [findInFile, List.filterMap_eq_flatMap_toList]
  refine List.flatMap_congr fun n _ => ?_
  rw [matchesAt, h]
  rfl

theorem findInFile_eq_flatMap {p : Pattern} (h : p.isList = true) (file : File) :
    p.findInFile file = (file.visits.filterMap (Option.guard (·.isList))).flatMap p.windows := by
  rw [findInFile, List.filterMap_eq_filter]
  induction file.visits with
  | nil => rfl
  | cons n ns ih =>
    rw [List.flatMap_cons, ih, List.filter_cons, matchesAt, h]
    cases n.isList <;> simp

/-- A search in a file is exhaustive. A pattern for single nodes gives one match for each address in the
functions of the file at which it matches the node, in the order of addresses. A list pattern gives the
matches in each list that has an address. Every list with an address has elements, and what is in a node
lies in its parts, so all there is in the functions has an address. -/
theorem findInFile_exhaustive (p : Pattern) (file : File) :
    (p.isList = false →
      Enumerates (fun address => (file.at? address).bind p.matchNode?) (p.findInFile file)) ∧
    (p.isList = true → ∃ lists,
      Enumerates (fun address => (file.at? address).filter (·.isList)) lists ∧
        p.findInFile file = lists.flatMap p.windows) ∧
    (∀ address n, file.at? address = some n → n.size ≠ 0) ∧
    ∀ n m : Node, n.label = m.label → n.parts = m.parts → n = m := by
  have hvisits := file.enumerates_visits
  refine ⟨fun h => ?_, fun h => ?_, fun address n hn => file.solid_of_at? hn,
    fun n m => Node.eq_of_parts⟩
  · rw [findInFile_eq_filterMap h]
    exact hvisits.filterMap p.matchNode?
  · refine ⟨_, ?_, findInFile_eq_flatMap h file⟩
    have hlists := hvisits.filterMap (Option.guard (·.isList))
    simpa only [Option.bind_guard] using hlists

/-- A method with calls in a case clause, in an argument list and in a function literal. -/
def nestedCalls : String :=
  "package p; func (r T) m(a, b int) \x7b switch a \x7b case g(b): h(g(a), func() \x7b g() \x7d) \x7d \x7d"

theorem nestedCalls_exhaustive :
    ∃ p q file, compile "$_($*_)" = .ok p ∧ compile "$_, $_" = .ok q ∧
      File.parse nestedCalls = .ok file ∧
      (p.findInFile file).map (·.node.text) =
        ["g(b)", "h(g(a), func() \x7b g() \x7d)", "g(a)", "g()"] ∧
      (q.findInFile file).map (·.node.text) = ["g(a), func() \x7b g() \x7d"] ∧
      Enumerates (fun address => (file.at? address).bind p.matchNode?) (p.findInFile file) ∧
      ∃ lists, Enumerates (fun address => (file.at? address).filter (·.isList)) lists ∧
        q.findInFile file = lists.flatMap q.windows := by
  have hrun : ((compile "$_($*_)").toOption.bind fun p => (compile "$_, $_").toOption.bind fun q =>
      (File.parse nestedCalls).toOption.map fun file =>
        (p.isList, q.isList, (p.findInFile file).map (·.node.text),
          (q.findInFile file).map (·.node.text))) =
      some (false, true, ["g(b)", "h(g(a), func() \x7b g() \x7d)", "g(a)", "g()"],
        ["g(a), func() \x7b g() \x7d"]) := by decide +kernel
  simp only [Option.bind_eq_some_iff, Option.map_eq_some_iff, except_toOption_eq_some,
    Prod.mk.injEq] at hrun
  obtain ⟨p, hp, q, hq, file, hfile, hsingle, hlist, hcalls, hpairs⟩ := hrun
  exact ⟨p, q, file, hp, hq, hfile, hcalls, hpairs, (findInFile_exhaustive p file).1 hsingle,
    (findInFile_exhaustive q file).2.1 hlist⟩

end GoSift.Pattern
