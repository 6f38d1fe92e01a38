import GoSift.Filter.Library
import GoSift.Proofs.Filter.Balance

/-!
The natives of the library. Each takes its arguments and gives its results, and only captured nodes have
methods.
-/
namespace GoSift.Filter

namespace NativeSpec

/-- What a native is found by. -/
def key (spec : NativeSpec) : Key :=
  ⟨spec.qualifier, spec.name⟩

/-- The native that is added. -/
def native (spec : NativeSpec) : Native :=
  if spec.isMethod then
    ⟨"(" ++ spec.qualifier ++ ")." ++ spec.name, spec.sig, spec.sig.params.length + 1, spec.run⟩
  else ⟨spec.qualifier ++ "." ++ spec.name, spec.sig, spec.sig.params.length, spec.run⟩

theorem sig_native (spec : NativeSpec) : spec.native.sig = spec.sig := by
  unfold native
  split <;> rfl

theorem arity_native (spec : NativeSpec) :
    spec.native.arity = spec.sig.params.length + spec.isMethod.toNat := by
  unfold native
  cases spec.isMethod <;> rfl

theorem run_native (spec : NativeSpec) : spec.native.run = spec.run := by
  unfold native
  split <;> rfl

end NativeSpec

namespace Registry

theorem addSpec_natives (r : Registry) (spec : NativeSpec) :
    (r.addSpec spec).1.natives = (r.natives.add spec.key spec.native).1 := by
  unfold addSpec NativeSpec.native NativeSpec.key
  cases spec.isMethod <;> rfl

theorem addSpec_funcs (r : Registry) (spec : NativeSpec) : (r.addSpec spec).1.funcs = r.funcs := by
  unfold addSpec
  split <;> rfl

theorem Built.addSpec {r : Registry} (h : r.Built) (spec : NativeSpec) : (r.addSpec spec).1.Built := by
  unfold Registry.addSpec
  split
  · exact h.method _ _ _ _
  · exact h.native _ _ _ _

variable {r : Registry} {specs : List NativeSpec}

theorem Built.addSpecs (h : r.Built) : (r.addSpecs specs).Built := by
  induction specs generalizing r with
  | nil => exact h
  | cons spec specs ih => exact ih (h.addSpec spec)

theorem addSpecs_funcs : (r.addSpecs specs).funcs = r.funcs := by
  induction specs generalizing r with
  | nil => rfl
  | cons spec specs ih => exact ih.trans (addSpec_funcs r spec)

/-- A native that is found by its key is one of those added, or was there. -/
theorem lookup?_addSpecs (h : r.natives.Indexed) {key : Key} {id : Nat} {g : Native}
    (hg : (r.addSpecs specs).natives.lookup? key = some (id, g)) :
    (∃ spec ∈ specs, spec.key = key ∧ spec.native = g) ∨ r.natives.lookup? key = some (id, g) := by
  induction specs generalizing r with
  | nil => exact Or.inr hg
  | cons spec specs ih =>
    have hadd := h.add spec.key spec.native
    rw [← addSpec_natives] at hadd
    rcases ih hadd.1 hg with ⟨later, hm, hl⟩ | hg
    · exact Or.inl ⟨later, List.mem_cons_of_mem _ hm, hl⟩
    · rcases hadd.2 hg with ⟨rfl, rfl⟩ | hg
      · exact Or.inl ⟨spec, List.mem_cons_self, rfl, rfl⟩
      · exact Or.inr hg

theorem get?_addSpecs {id : Nat} {g : Native} (hg : (r.addSpecs specs).natives.get? id = some g) :
    (∃ spec ∈ specs, spec.native = g) ∨ r.natives.get? id = some g := by
  induction specs generalizing r with
  | nil => exact Or.inr hg
  | cons spec specs ih =>
    rcases ih hg with ⟨later, hm, rfl⟩ | hg
    · exact Or.inl ⟨later, List.mem_cons_of_mem _ hm, rfl⟩
    · rw [addSpec_natives] at hg
      rcases Table.get?_add hg with rfl | hg
      · exact Or.inl ⟨spec, List.mem_cons_self, rfl⟩
      · exact Or.inr hg

end Registry

/-- What is added takes its arguments, behind a receiver if it is a method, and gives its results. -/
def NativeSpec.Balanced (spec : NativeSpec) : Prop :=
  ∀ args : List Value, args.length = spec.sig.params.length + spec.isMethod.toNat →
    ∃ results : List Value, results.length = spec.sig.results.length ∧
      ∀ below, spec.run (args.reverse ++ below) = results.reverse ++ below

theorem NativeSpec.Balanced.native {spec : NativeSpec} (h : spec.Balanced) : spec.native.Balanced := by
  intro args hargs
  rw [sig_native, run_native]
  exact h args (hargs.trans spec.arity_native)

theorem factMethod_balanced (name : String) (result : Ty) (get : Facts → Value) :
    (factMethod name result get).Balanced := by
  intro args hargs
  obtain ⟨v, rfl⟩ := List.length_eq_one_iff.mp hargs
  exact ⟨[(v.facts?.map get).getD .nil], rfl, fun _ => rfl⟩

theorem textFunc₂_balanced (name : String) (result : Ty) (f : String → String → Value) :
    (textFunc₂ name result f).Balanced := by
  intro args hargs
  obtain ⟨x, y, rfl⟩ := List.length_eq_two.mp hargs
  exact ⟨[f x.asStr y.asStr], rfl, fun _ => rfl⟩

theorem textFunc_balanced (name : String) (f : String → String) : (textFunc name f).Balanced := by
  intro args hargs
  obtain ⟨x, rfl⟩ := List.length_eq_one_iff.mp hargs
  exact ⟨[.str (f x.asStr)], rfl, fun _ => rfl⟩

theorem parseIntFunc_balanced : parseIntFunc.Balanced := by
  intro args hargs
  obtain ⟨x, rfl⟩ := List.length_eq_one_iff.mp hargs
  exact ⟨[(parseInt x.asStr).1, (parseInt x.asStr).2], rfl, fun _ => rfl⟩

theorem library_balanced : ∀ spec ∈ library, spec.Balanced := by
  simp only [library, List.forall_mem_cons, List.not_mem_nil, false_imp_iff, implies_true, and_true,
    factMethod_balanced, textFunc₂_balanced, textFunc_balanced, parseIntFunc_balanced]

theorem qualifier_of_isMethod : ∀ spec ∈ library, spec.isMethod → spec.qualifier = varType := by
  simp [library, factMethod, textFunc₂, textFunc, parseIntFunc]

namespace Registry

theorem standard_built : standard.Built :=
  Built.empty.addSpecs

theorem standard_funcs : standard.funcs = {} :=
  addSpecs_funcs

theorem standard_lacks (package : String) : standard.Lacks package := by
  intro key _
  rw [standard_funcs]
  exact Std.HashMap.getElem?_empty

theorem standard_balanced {id : Nat} {g : Native} (hg : standard.natives.get? id = some g) :
    g.Balanced := by
  rcases get?_addSpecs hg with ⟨spec, hm, rfl⟩ | hg
  · exact (library_balanced spec hm).native
  · cases hg

/-- A native takes a receiver at most, and only if it is a method of captured nodes. -/
theorem standard_arity {key : Key} {id : Nat} {g : Native}
    (hg : standard.natives.lookup? key = some (id, g)) :
    g.arity ≤ g.sig.params.length + 1 ∧
      (key.qualifier ≠ varType → g.arity = g.sig.params.length) := by
  rcases lookup?_addSpecs Table.indexed_empty hg with ⟨spec, hm, rfl, rfl⟩ | hg
  · rw [NativeSpec.arity_native, NativeSpec.sig_native]
    refine ⟨Nat.add_le_add_left (Bool.toNat_le _) _, fun hq => ?_⟩
    have hplain : spec.isMethod = false := by
      by_contra hmethod
      exact hq (qualifier_of_isMethod spec hm (by simpa using hmethod))
    rw [hplain]
    rfl
  · have hnone : (empty.natives.lookup? key) = none := by
      simp [empty, Table.lookup?]
    rw [hnone] at hg
    cases hg

end Registry

end GoSift.Filter
