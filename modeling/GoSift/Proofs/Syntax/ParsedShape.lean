import GoSift.Proofs.Outcome
import GoSift.Proofs.Syntax.Parsed

/-! The trees that are parsed from texts have the shapes of the grammar. -/
namespace GoSift

/-- Wildcards are among the tokens of a text only if they are allowed. -/
theorem Token.allowed_of_tokenize {wildcards : Bool} {src : String} {ts : List Token}
    (h : tokenize wildcards src = .ok ts) : ∀ t ∈ ts, t.kind.Allowed wildcards := by
  cases wildcards with
  | true => exact fun t _ => t.kind.allowed_true
  | false =>
    intro t ht
    simp only [tokenize, Bool.false_eq_true, if_false] at h
    split at h
    · cases h
    · split at h
      · cases h
      · next hnone =>
        cases h
        rcases mem_closeLines ht with ⟨ht, -⟩ | hk | hk
        · have hproper := List.find?_eq_none.mp hnone t ht
          unfold Kind.Allowed
          split
          · next hk => exact absurd (by simp [isWildcard, hk]) hproper
          · trivial
        · rw [hk]
          trivial
        · rw [hk]
          trivial

/-- Whatever is parsed has the shapes of the grammar. Bodies are blocks; a switch holds clauses, or
where wildcards are allowed also statements that begin with one, and clauses stand nowhere else; an
alternative is a block or a condition. A slice has its third bound just in the full form, and then its
second. A range clause has no value without a key, and defines nothing without one. The guard of a
type switch has its form, and no tag of a switch is a bare guard. Assignments, declarations and clauses
with a list have no empty sides. Parameters have all names or none. Elements of literals, with keys or
without types, stand nowhere but in literals, and the type of a literal is a name, an array, a map or a
struct. -/
theorem shaped_of_parse (wildcards : Bool) (src : String) :
    (∀ file, File.parse src = .ok file → ∀ f ∈ file.funcs, f.Shaped false) ∧
      (∀ fs, Func.parseList src = .ok fs → ∀ f ∈ fs, f.Shaped false) ∧
      (∀ xs, Expr.parseList wildcards src = .ok xs → xs ≠ [] ∧ ∀ x ∈ xs, x.Shaped wildcards) ∧
      ∀ ss, Stmt.parseList wildcards src = .ok ss → ∀ s ∈ ss, s.Shaped wildcards := by
  refine ⟨fun file h f hf => ?_, fun fs h f hf => ?_, fun xs h => ?_, fun ss h s hs => ?_⟩
  · exact ((File.parser_yields fun _ h => h).runText (fun _ => Token.allowed_of_tokenize) h f hf).2
  · exact ((Func.listParser_yields fun _ h => h).runText (fun _ => Token.allowed_of_tokenize) h f hf).2
  · have hxs := (Expr.listParser_yields fun _ h => h).runText (fun _ => Token.allowed_of_tokenize) h
    exact ⟨hxs.1, fun x hx => (hxs.2 x hx).2⟩
  · exact ((Stmt.listParser_yields fun _ h => h).runText (fun _ => Token.allowed_of_tokenize) h s hs).2

/-- Functions with the statements that have bodies. -/
def looping : String :=
  "func (r *T) f(a, b int, c ...P) \x7b for i := range r.xs[1:2:3] \x7b go func() \x7b\x7d() \x7d \x7d"

def branching : String :=
  "func f() \x7b if x := g(); x \x7b\x7d else if y \x7b\x7d else \x7b\x7d; " ++
    "switch v := x.(type) \x7b case P: default: \x7d \x7d"

/-- A literal whose elements have keys or no types. -/
def keyed : String :=
  "map[string]P\x7b$k: \x7b1, $*xs\x7d\x7d, $x.y"

def clauseRun : String :=
  "switch $x \x7b case 1, $y: f(); $*clauses \x7d"

theorem looping_shaped :
    ∃ file fs xs ss, File.parse ("package p; " ++ looping) = .ok file ∧
      Func.parseList branching = .ok fs ∧ Expr.parseList true keyed = .ok xs ∧
      Stmt.parseList true clauseRun = .ok ss ∧
      (file.funcs.length, fs.length, xs.length, ss.length) = (1, 1, 2, 1) ∧
      (∀ f ∈ file.funcs, f.Shaped false) ∧ (∀ f ∈ fs, f.Shaped false) ∧
      (∀ x ∈ xs, x.Shaped true) ∧ ∀ s ∈ ss, s.Shaped true := by
  have hfile : (File.parse ("package p; " ++ looping)).toOption.map (·.funcs.length) = some 1 := by
    decide +kernel
  have hfuncs : (Func.parseList branching).toOption.map (·.length) = some 1 := by decide +kernel
  have hexprs : (Expr.parseList true keyed).toOption.map (·.length) = some 2 := by decide +kernel
  have hstmts : (Stmt.parseList true clauseRun).toOption.map (·.length) = some 1 := by decide +kernel
  simp only [Option.map_eq_some_iff, except_toOption_eq_some] at hfile hfuncs hexprs hstmts
  obtain ⟨file, hfile, hfileLen⟩ := hfile
  obtain ⟨fs, hfuncs, hfuncsLen⟩ := hfuncs
  obtain ⟨xs, hexprs, hexprsLen⟩ := hexprs
  obtain ⟨ss, hstmts, hstmtsLen⟩ := hstmts
  refine ⟨file, fs, xs, ss, hfile, hfuncs, hexprs, hstmts, ?_, ?_, ?_, ?_, ?_⟩
  · rw [hfileLen, hfuncsLen, hexprsLen, hstmtsLen]
  · exact (shaped_of_parse false _).1 file hfile
  · exact (shaped_of_parse false _).2.1 fs hfuncs
  · exact ((shaped_of_parse true _).2.2.1 xs hexprs).2
  · exact (shaped_of_parse true _).2.2.2 ss hstmts

end GoSift
